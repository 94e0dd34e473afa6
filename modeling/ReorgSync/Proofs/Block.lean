import Mathlib.Data.List.Chain
import ReorgSync.Block

namespace ReorgSync

/-! Linked runs of blocks. -/

namespace Block

theorem linked_iff_isChain {blocks : List Block} :
    Linked blocks ↔ blocks.IsChain fun older newer => newer.Extends older := by
  induction blocks with
  | nil => exact ⟨fun _ => .nil, fun _ => trivial⟩
  | cons oldest rest induction =>
      cases rest with
      | nil => exact ⟨fun _ => .singleton _, fun _ => trivial⟩
      | cons next rest =>
          rw [Linked, induction, List.isChain_cons_cons]

theorem linked_append {front back : List Block} :
    Linked (front ++ back) ↔ Linked front ∧ Linked back ∧
      ∀ older ∈ front.getLast?, ∀ newer ∈ back.head?, newer.Extends older := by
  rw [linked_iff_isChain, linked_iff_isChain, linked_iff_isChain, List.isChain_append]

theorem Linked.tail {blocks : List Block} (linked : Linked blocks) : Linked blocks.tail :=
  linked_iff_isChain.mpr (linked_iff_isChain.mp linked).tail

/-- Heights grow by one along a linked run. -/
theorem Linked.number_getLast {oldest : Block} {newer : List Block}
    (linked : Linked (oldest :: newer)) :
    ((oldest :: newer).getLast (List.cons_ne_nil _ _)).number = oldest.number + newer.length := by
  induction newer generalizing oldest with
  | nil => simp
  | cons next rest induction =>
      rw [List.getLast_cons (List.cons_ne_nil _ _), induction linked.2, linked.1.1,
        List.length_cons]
      omega

theorem Linked.number_lt_of_mem {oldest : Block} {newer : List Block}
    (linked : Linked (oldest :: newer)) : ∀ block ∈ newer, oldest.number < block.number := by
  induction newer generalizing oldest with
  | nil => simp
  | cons next rest induction =>
      have below : oldest.number < next.number := by
        rw [linked.1.1]
        omega
      intro block member
      rcases List.mem_cons.mp member with rfl | member
      · exact below
      · exact Nat.lt_trans below (induction linked.2 block member)

theorem Linked.pairwise_number {blocks : List Block} (linked : Linked blocks) :
    blocks.Pairwise fun older newer => older.number < newer.number := by
  induction blocks with
  | nil => exact .nil
  | cons oldest newer induction =>
      exact .cons linked.number_lt_of_mem (induction linked.tail)

/-- A linked run is cut behind one of its blocks by the heights. -/
theorem Linked.filter_append {kept newer : List Block} (linked : Linked (kept ++ newer))
    {base : Block} (isLast : kept.getLast? = some base) :
    (kept ++ newer).filter (fun block => decide (block.number ≤ base.number)) = kept ∧
      (kept ++ newer).filter (fun block => decide (base.number < block.number)) = newer := by
  rcases List.getLast?_eq_some_iff.mp isLast with ⟨front, rfl⟩
  have order := linked.pairwise_number
  rw [List.append_assoc, List.pairwise_append] at order
  have below : ∀ block ∈ front ++ [base], block.number ≤ base.number := by
    intro block member
    rcases List.mem_append.mp member with older | isBase
    · exact Nat.le_of_lt (order.2.2 block older base (by simp))
    · rw [List.mem_singleton.mp isBase]
  have above : ∀ block ∈ newer, base.number < block.number :=
    (List.pairwise_append.mp order.2.1).2.2 base (List.mem_singleton_self base)
  constructor
  · rw [List.filter_append, List.filter_eq_self.mpr fun block member => by
      simpa using below block member]
    rw [List.filter_eq_nil_iff.mpr fun block member => by simpa using above block member,
      List.append_nil]
  · rw [List.filter_append, List.filter_eq_nil_iff.mpr fun block member => by
      simpa using below block member]
    rw [List.filter_eq_self.mpr fun block member => by simpa using above block member,
      List.nil_append]

/-- The blocks above a height are the newest ones of a linked run. -/
theorem Linked.filter_above {blocks : List Block} (linked : Linked blocks) (height : Nat) :
    ∃ front, blocks = front ++ blocks.filter fun block => decide (height < block.number) := by
  induction blocks with
  | nil => exact ⟨[], rfl⟩
  | cons oldest newer induction =>
      by_cases above : height < oldest.number
      · have all : (oldest :: newer).filter (fun block => decide (height < block.number)) =
            oldest :: newer := by
          rw [List.filter_eq_self]
          intro block member
          rcases List.mem_cons.mp member with rfl | member
          · simpa using above
          · simpa using Nat.lt_trans above (linked.number_lt_of_mem block member)
        exact ⟨[], by rw [all, List.nil_append]⟩
      · rcases induction linked.tail with ⟨front, split⟩
        refine ⟨oldest :: front, ?_⟩
        rw [List.filter_cons_of_neg (by simpa using above), List.cons_append, ← split]

end Block

end ReorgSync
