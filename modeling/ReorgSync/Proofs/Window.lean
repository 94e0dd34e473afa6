import Mathlib.Data.List.DropRight
import ReorgSync.Proofs.Block
import ReorgSync.Window

namespace ReorgSync

/-! What the operations of a window do to the blocks in it. -/

namespace Window

variable {window after : Window} {block : Block} {blocks : List Block}

/-! ## Looking into a window -/

theorem split?_eq_some {hash : String} {kept newer : List Block}
    (found : split? hash blocks = some (kept, newer)) :
    blocks = kept ++ newer ∧ ∃ base, kept.getLast? = some base ∧ base.hash = hash := by
  induction blocks generalizing kept newer with
  | nil => simp [split?] at found
  | cons first rest induction =>
      rw [split?] at found
      cases deeper : split? hash rest with
      | some parts =>
          rcases parts with ⟨keptBehind, newerBehind⟩
          simp only [deeper, Option.some.injEq, Prod.mk.injEq] at found
          rcases found with ⟨rfl, rfl⟩
          rcases induction deeper with ⟨rfl, base, last, same⟩
          refine ⟨rfl, base, ?_, same⟩
          rw [List.getLast?_cons, last, Option.getD_some]
      | none =>
          simp only [deeper] at found
          split at found
          case isTrue same =>
            cases found
            exact ⟨rfl, first, rfl, same⟩
          case isFalse => contradiction

theorem split?_eq_none {hash : String} (absent : ∀ block ∈ blocks, block.hash ≠ hash) :
    split? hash blocks = none := by
  induction blocks with
  | nil => rfl
  | cons first rest induction =>
      rw [split?, induction fun block member => absent block (List.mem_cons_of_mem _ member)]
      exact if_neg (absent first List.mem_cons_self)

theorem exists_split? (member : block ∈ blocks) :
    ∃ kept newer, split? block.hash blocks = some (kept, newer) := by
  induction blocks with
  | nil => simp at member
  | cons first rest induction =>
      rw [split?]
      cases deeper : split? block.hash rest with
      | some parts => exact ⟨_, _, rfl⟩
      | none =>
          rcases List.mem_cons.mp member with rfl | behind
          · exact ⟨[block], rest, if_pos rfl⟩
          · rcases induction behind with ⟨kept, newer, found⟩
            rw [deeper] at found
            contradiction

theorem find?_eq_some {hash : String} (found : window.find? hash = some block) :
    block ∈ window.blocks ∧ block.hash = hash := by
  have same := List.find?_some found
  exact ⟨List.mem_reverse.mp (List.mem_of_find?_eq_some found), by simpa using same⟩

theorem mem_of_head? (found : window.head? = some block) : block ∈ window.blocks :=
  List.mem_of_getLast? found

/-! ## Adding blocks -/

theorem push_eq_ok (pushed : window.push block = .ok after) :
    (after.blocks = window.blocks ++ [block] ∨ after.blocks = window.blocks.tail ++ [block]) ∧
      ∀ head, window.head? = some head → block.Extends head := by
  rw [push] at pushed
  have shape : ∀ older : List Block, older = window.blocks ∨ older = window.blocks.tail →
      (⟨older ++ [block], window.capacity⟩ : Window) = after →
        after.blocks = window.blocks ++ [block] ∨
          after.blocks = window.blocks.tail ++ [block] := by
    intro older holds same
    rw [← same]
    rcases holds with rfl | rfl
    · exact .inl rfl
    · exact .inr rfl
  have either : (if window.capacity ≤ window.blocks.length then window.blocks.tail
      else window.blocks) = window.blocks ∨
      (if window.capacity ≤ window.blocks.length then window.blocks.tail
        else window.blocks) = window.blocks.tail := by
    split
    · exact .inr rfl
    · exact .inl rfl
  cases newest : window.head? with
  | none =>
      simp only [newest, Except.ok.injEq] at pushed
      exact ⟨shape _ either pushed, by simp⟩
  | some head =>
      simp only [newest] at pushed
      split at pushed
      case isTrue extending =>
        refine ⟨shape _ either (Except.ok.inj pushed), ?_⟩
        intro _ same
        cases same
        exact extending
      case isFalse => contradiction

theorem push_of_extends (extending : ∀ head, window.head? = some head → block.Extends head) :
    ∃ after, window.push block = .ok after := by
  rw [push]
  cases newest : window.head? with
  | none => exact ⟨_, rfl⟩
  | some head => exact ⟨_, if_pos (extending head newest)⟩

/-- A block that cannot be added is refused for its place. -/
theorem push_eq_error {cause : SyncError} (refused : window.push block = .error cause) :
    ∃ head, window.head? = some head ∧ ¬ block.Extends head ∧
      cause = .nonContiguous (head.number + 1) block.number := by
  rw [push] at refused
  cases newest : window.head? with
  | none => simp [newest] at refused
  | some head =>
      simp only [newest] at refused
      split at refused
      case isTrue => contradiction
      case isFalse apart => exact ⟨head, rfl, apart, (Except.error.inj refused).symm⟩

theorem head?_push (pushed : window.push block = .ok after) : after.head? = some block := by
  rcases (push_eq_ok pushed).1 with shape | shape <;> simp [head?, shape]

theorem mem_push (pushed : window.push block = .ok after) {member : Block}
    (within : member ∈ after.blocks) : member ∈ window.blocks ∨ member = block := by
  rcases (push_eq_ok pushed).1 with shape | shape
  · simpa [shape] using within
  · rw [shape, List.mem_append, List.mem_singleton] at within
    exact within.imp_left List.mem_of_mem_tail

theorem linked_push (linked : Block.Linked window.blocks)
    (pushed : window.push block = .ok after) : Block.Linked after.blocks := by
  rcases push_eq_ok pushed with ⟨shape, extending⟩
  have behind : ∀ older ∈ window.blocks.getLast?, ∀ newer ∈ [block].head?,
      newer.Extends older := by
    intro older isLast _ same
    cases same
    exact extending older isLast
  rcases shape with shape | shape
  · rw [shape, Block.linked_append]
    exact ⟨linked, trivial, behind⟩
  · rw [shape, Block.linked_append]
    refine ⟨linked.tail, trivial, ?_⟩
    intro older isLast
    cases oldest : window.blocks with
    | nil => simp [oldest] at isLast
    | cons first rest =>
        rw [oldest, List.tail_cons] at isLast
        refine behind older ?_
        rw [oldest, List.getLast?_cons, isLast]
        rfl

/-- What holds of a window after it took in blocks one by one, as far as it took
them. -/
theorem pushUntilError_spec (window : Window) (blocks : List Block)
    (linked : Block.Linked window.blocks) :
    Block.Linked (window.pushUntilError blocks).1.blocks ∧
      ∀ block ∈ (window.pushUntilError blocks).1.blocks,
        block ∈ window.blocks ∨ block ∈ blocks := by
  induction blocks generalizing window with
  | nil => exact ⟨linked, fun _ member => .inl member⟩
  | cons first rest induction =>
      rw [pushUntilError]
      cases pushed : window.push first with
      | error error => exact ⟨linked, fun _ member => .inl member⟩
      | ok after =>
          rcases induction after (linked_push linked pushed) with ⟨linkedAfter, members⟩
          refine ⟨linkedAfter, fun block member => ?_⟩
          rcases members block member with before | behind
          · rcases mem_push pushed before with within | rfl
            · exact .inl within
            · exact .inr List.mem_cons_self
          · exact .inr (List.mem_cons_of_mem _ behind)

theorem pushUntilError_eq_some {cause : SyncError}
    (refused : (window.pushUntilError blocks).2 = some cause) :
    ∃ expected got, cause = .nonContiguous expected got := by
  induction blocks generalizing window with
  | nil => cases refused
  | cons first rest induction =>
      rw [pushUntilError] at refused
      cases pushed : window.push first with
      | ok after =>
          rw [pushed] at refused
          exact induction refused
      | error other =>
          rw [pushed] at refused
          cases refused
          rcases push_eq_error pushed with ⟨head, -, -, same⟩
          exact ⟨_, _, same⟩

theorem pushAll_eq_error {cause : SyncError} (refused : window.pushAll blocks = .error cause) :
    ∃ expected got, cause = .nonContiguous expected got := by
  induction blocks generalizing window with
  | nil => cases refused
  | cons first rest induction =>
      rw [pushAll] at refused
      cases pushed : window.push first with
      | ok after =>
          rw [pushed] at refused
          exact induction refused
      | error other =>
          rw [pushed] at refused
          cases refused
          rcases push_eq_error pushed with ⟨head, -, -, same⟩
          exact ⟨_, _, same⟩

/-- Nothing stops blocks that are linked behind those of a window. -/
theorem pushUntilError_of_linked (linked : Block.Linked (window.blocks ++ blocks)) :
    (window.pushUntilError blocks).2 = none ∧
      (window.pushUntilError blocks).1.head? = (window.blocks ++ blocks).getLast? := by
  induction blocks generalizing window with
  | nil => simp [pushUntilError, head?]
  | cons first rest induction =>
      have joins := (Block.linked_append.mp linked).2.2
      have extending : ∀ head, window.head? = some head → first.Extends head :=
        fun head isHead => joins head isHead first rfl
      rcases push_of_extends extending with ⟨after, pushed⟩
      have linkedAfter : Block.Linked (after.blocks ++ rest) := by
        rcases (push_eq_ok pushed).1 with shape | shape
        · rw [shape, List.append_assoc]
          exact linked
        · rw [shape, List.append_assoc]
          cases older : window.blocks with
          | nil =>
              rw [older] at linked
              exact linked
          | cons oldest newer =>
              rw [older] at linked
              exact linked.tail
      have newest : (after.blocks ++ rest).getLast? =
          (window.blocks ++ first :: rest).getLast? := by
        rw [List.getLast?_append, List.getLast?_append, List.getLast?_cons]
        have isNewest : after.blocks.getLast? = some first := head?_push pushed
        rw [isNewest]
        cases rest.getLast? <;> rfl
      rw [pushUntilError, pushed]
      rw [← newest]
      exact induction linkedAfter

/-- A window that took in all of some blocks stays linked and ends at the last of
them, and so do the blocks themselves. -/
theorem pushAll_spec (linked : Block.Linked window.blocks)
    (pushed : window.pushAll blocks = .ok after) :
    Block.Linked after.blocks ∧
      (∀ block ∈ after.blocks, block ∈ window.blocks ∨ block ∈ blocks) ∧
      after.head? = (window.blocks ++ blocks).getLast? ∧
      Block.Linked (window.blocks ++ blocks) := by
  induction blocks generalizing window with
  | nil =>
      cases pushed
      simpa [head?] using linked
  | cons first rest induction =>
      rw [pushAll] at pushed
      cases step : window.push first with
      | error error => simp [step, bind, Except.bind] at pushed
      | ok middle =>
          simp only [step, bind, Except.bind] at pushed
          rcases induction (linked_push linked step) pushed with
            ⟨linkedAfter, members, newest, linkedBehind⟩
          have shape := (push_eq_ok step).1
          have linkedFirst : Block.Linked (first :: rest) := by
            rcases shape with shape | shape <;> rw [shape, List.append_assoc] at linkedBehind
            · exact (Block.linked_append.mp linkedBehind).2.1
            · exact (Block.linked_append.mp linkedBehind).2.1
          refine ⟨linkedAfter, fun block member => ?_, ?_, ?_⟩
          · rcases members block member with before | behind
            · rcases mem_push step before with within | rfl
              · exact .inl within
              · exact .inr List.mem_cons_self
            · exact .inr (List.mem_cons_of_mem _ behind)
          · rw [newest]
            rcases shape with shape | shape <;> simp [shape, List.getLast?_cons]
          · rw [Block.linked_append]
            refine ⟨linked, linkedFirst, ?_⟩
            intro older isLast _ same
            cases same
            exact (push_eq_ok step).2 older isLast

/-! ## How much stays -/

/-- A linked window that is no longer than it may be. -/
structure IsSound (window : Window) (capacity : Nat) : Prop where
  linked : Block.Linked window.blocks
  capacity_eq : window.capacity = capacity
  length_le : window.blocks.length ≤ capacity

variable {capacity : Nat}

/-- The newest of some blocks and of more blocks behind them are the newest of all. -/
theorem rtake_rtake_append (older newer : List Block) :
    (older.rtake capacity ++ newer).rtake capacity = (older ++ newer).rtake capacity := by
  simp only [List.rtake_eq_reverse_take_reverse, List.reverse_append, List.reverse_reverse]
  rw [List.take_append, List.take_append, List.take_take, Nat.min_eq_left (Nat.sub_le _ _)]

/-- What is in front of enough blocks does not matter. -/
theorem rtake_append_of_le_length {older newer : List Block} (enough : capacity ≤ newer.length) :
    (older ++ newer).rtake capacity = newer.rtake capacity := by
  have skipped : (older ++ newer).length - capacity =
      older.length + (newer.length - capacity) := by
    rw [List.length_append]
    omega
  rw [List.rtake, skipped, List.drop_length_add_append, List.rtake]

theorem rtake_of_length_le (within : blocks.length ≤ capacity) : blocks.rtake capacity = blocks := by
  rw [List.rtake, Nat.sub_eq_zero_of_le within, List.drop_zero]

theorem linked_rtake_append {older newer : List Block} (linked : Block.Linked (older ++ newer)) :
    Block.Linked (older.rtake capacity ++ newer) := by
  rw [← List.take_append_drop (older.length - capacity) older, List.append_assoc] at linked
  exact (Block.linked_append.mp linked).2.1

/-- A block that extends the head is added, and then the newest blocks stay. -/
theorem IsSound.push_eq (sound : window.IsSound capacity) (positive : 0 < capacity)
    (extending : ∀ head, window.head? = some head → block.Extends head) :
    window.push block =
      .ok { window with blocks := (window.blocks ++ [block]).rtake capacity } := by
  have stays : (if window.capacity ≤ window.blocks.length then window.blocks.tail
      else window.blocks) ++ [block] = (window.blocks ++ [block]).rtake capacity := by
    have bounded := sound.length_le
    have length : (window.blocks ++ [block]).length = window.blocks.length + 1 := by simp
    rw [sound.capacity_eq, List.rtake, length]
    split
    case isTrue full =>
      have one : window.blocks.length + 1 - capacity = 1 := by omega
      rw [one, List.drop_append_of_le_length (by omega), List.drop_one]
    case isFalse =>
      have none : window.blocks.length + 1 - capacity = 0 := by omega
      rw [none, List.drop_zero]
  rw [push, stays]
  cases newest : window.head? with
  | none => rfl
  | some head => exact if_pos (extending head newest)

theorem IsSound.rtake (sound : window.IsSound capacity) (linked : Block.Linked blocks) :
    { window with blocks := blocks.rtake capacity : Window }.IsSound capacity where
  linked := by
    rw [← List.append_nil blocks] at linked
    simpa using linked_rtake_append linked
  capacity_eq := sound.capacity_eq
  length_le := by
    rw [List.rtake, List.length_drop]
    omega

theorem IsSound.push (sound : window.IsSound capacity) (positive : 0 < capacity)
    (pushed : window.push block = .ok after) : after.IsSound capacity := by
  have extending := (push_eq_ok pushed).2
  have linked : Block.Linked (window.blocks ++ [block]) := by
    rw [Block.linked_append]
    refine ⟨sound.linked, trivial, ?_⟩
    intro older isLast _ same
    cases same
    exact extending older isLast
  rw [sound.push_eq positive extending] at pushed
  cases pushed
  exact sound.rtake linked

theorem IsSound.pushUntilError (sound : window.IsSound capacity) (positive : 0 < capacity) :
    (window.pushUntilError blocks).1.IsSound capacity := by
  induction blocks generalizing window with
  | nil => exact sound
  | cons first rest induction =>
      rw [Window.pushUntilError]
      cases pushed : window.push first with
      | error error => exact sound
      | ok after => exact induction (sound.push positive pushed)

/-- Blocks for which there is room are all added if they are linked behind those of a window.
If not, the window ends where they first do not link. -/
theorem IsSound.pushUntilError_eq (sound : window.IsSound capacity)
    (room : (window.blocks ++ blocks).length ≤ capacity) :
    (window.pushUntilError blocks).2 = none ∨
      ∃ front older newer behind, window.blocks ++ blocks = front ++ older :: newer :: behind ∧
        Block.Linked (front ++ [older]) ∧ ¬ newer.Extends older ∧
        window.pushUntilError blocks =
          ({ window with blocks := front ++ [older] },
            some (.nonContiguous (older.number + 1) newer.number)) := by
  induction blocks generalizing window with
  | nil => exact .inl rfl
  | cons first rest induction =>
      rw [Window.pushUntilError]
      cases pushed : window.push first with
      | ok after =>
          have positive : 0 < capacity := by
            rw [List.length_append, List.length_cons] at room
            omega
          have further : (window.blocks ++ [first]).length ≤ capacity := by
            rw [List.length_append, List.length_cons] at room
            rw [List.length_append, List.length_singleton]
            omega
          have added := pushed
          rw [sound.push_eq positive (push_eq_ok pushed).2, rtake_of_length_le further] at added
          cases added
          have regrouped : window.blocks ++ first :: rest = window.blocks ++ [first] ++ rest := by
            simp
          rw [regrouped] at room ⊢
          exact induction (sound.push positive pushed) room
      | error cause =>
          rcases push_eq_error pushed with ⟨older, isLast, apart, rfl⟩
          rcases List.getLast?_eq_some_iff.mp isLast with ⟨front, split⟩
          refine .inr ⟨front, older, first, rest, ?_, ?_, apart, ?_⟩
          · rw [split, List.append_assoc, List.singleton_append]
          · rw [← split]
            exact sound.linked
          · rw [← split]

/-- Blocks that are linked behind those of a window are added, and then the newest
blocks of both stay. -/
theorem IsSound.pushAll_eq (sound : window.IsSound capacity) (positive : 0 < capacity)
    (linked : Block.Linked (window.blocks ++ blocks)) :
    window.pushAll blocks =
      .ok { window with blocks := (window.blocks ++ blocks).rtake capacity } := by
  induction blocks generalizing window with
  | nil => rw [pushAll, List.append_nil, rtake_of_length_le sound.length_le]
  | cons first rest induction =>
      have joins := (Block.linked_append.mp linked).2.2
      have pushed := sound.push_eq positive fun head isHead => joins head isHead first rfl
      rw [← List.singleton_append, ← List.append_assoc] at linked
      have further := induction (sound.push positive pushed) (linked_rtake_append linked)
      dsimp only at further
      rw [rtake_rtake_append, List.append_assoc, List.singleton_append] at further
      rw [pushAll, pushed]
      exact further

end Window

end ReorgSync
