import ReorgSync.Proofs.Store.Cut
import ReorgSync.Proofs.Tree.Path

namespace ReorgSync

/-! An entry matches a tree if its logs are those written along the path to the
block it ends at: each block's logs once, in the order of the path, and none from
another branch. -/

namespace BlockTree

variable {tree : BlockTree} {filter : Filter} {block last ancestor : Block} {height : Nat}

/-- The logs of a block that a filter selects. -/
def logsOf (tree : BlockTree) (filter : Filter) (block : Block) : List Log :=
  (tree.logs block.hash).filter filter.matchesLog

/-- The selected logs of blocks, one block after the other. -/
def logsAlong (tree : BlockTree) (filter : Filter) (blocks : List Block) : List Log :=
  blocks.flatMap (tree.logsOf filter)

@[simp] theorem logsAlong_nil : tree.logsAlong filter [] = [] := rfl

@[simp] theorem logsAlong_append (front back : List Block) :
    tree.logsAlong filter (front ++ back) =
      tree.logsAlong filter front ++ tree.logsAlong filter back :=
  List.flatMap_append

theorem logsAlong_cons (rest : List Block) :
    tree.logsAlong filter (block :: rest) =
      tree.logsOf filter block ++ tree.logsAlong filter rest :=
  List.flatMap_cons

theorem logsAlong_take_append_drop (tree : BlockTree) (filter : Filter) (height : Nat)
    (blocks : List Block) :
    tree.logsAlong filter (blocks.take height) ++ tree.logsAlong filter (blocks.drop height) =
      tree.logsAlong filter blocks := by
  rw [← logsAlong_append, List.take_append_drop]

theorem exists_mem_of_mem_logsAlong {blocks : List Block} {log : Log}
    (contained : ∀ block ∈ blocks, tree.Contains block)
    (member : log ∈ tree.logsAlong filter blocks) :
    ∃ block ∈ blocks, log.blockNumber = block.number := by
  rcases List.mem_flatMap.mp member with ⟨block, blockMember, logMember⟩
  exact ⟨block, blockMember, tree.log_height (contained block blockMember) log
    (List.mem_filter.mp logMember).1⟩

theorem number_lt_of_mem_take (contains : tree.Contains last)
    (member : block ∈ (tree.path last).take height) : block.number < height := by
  rcases List.mem_take_iff_getElem.mp member with ⟨index, within, found⟩
  have number := (path_of_getElem? contains (List.getElem?_eq_some_iff.mpr ⟨by omega, found⟩)).2.1
  omega

theorem le_number_of_mem_drop (contains : tree.Contains last)
    (member : block ∈ (tree.path last).drop height) : height ≤ block.number := by
  rcases List.mem_drop_iff_getElem.mp member with ⟨index, within, found⟩
  have number := (path_of_getElem? contains (List.getElem?_eq_some_iff.mpr ⟨by omega, found⟩)).2.1
  omega

/-- Logs lie where their blocks lie. -/
theorem blockNumber_lt_of_mem_take {log : Log} (contains : tree.Contains last)
    (member : log ∈ tree.logsAlong filter ((tree.path last).take height)) :
    log.blockNumber < height := by
  rcases exists_mem_of_mem_logsAlong (fun _ inFront =>
    contains_of_mem_path contains (List.mem_of_mem_take inFront)) member with
    ⟨block, blockMember, level⟩
  rw [level]
  exact number_lt_of_mem_take contains blockMember

theorem le_blockNumber_of_mem_drop {log : Log} (contains : tree.Contains last)
    (member : log ∈ tree.logsAlong filter ((tree.path last).drop height)) :
    height ≤ log.blockNumber := by
  rcases exists_mem_of_mem_logsAlong (fun _ behind =>
    contains_of_mem_path contains (List.mem_of_mem_drop behind)) member with
    ⟨block, blockMember, level⟩
  rw [level]
  exact le_number_of_mem_drop contains blockMember

theorem blockNumber_of_mem_range {log : Log} {first final : Nat} (contains : tree.Contains last)
    (member : log ∈ tree.logsAlong filter ((tree.path last).filter fun block =>
      decide (first ≤ block.number ∧ block.number ≤ final))) :
    first ≤ log.blockNumber ∧ log.blockNumber ≤ final := by
  rcases exists_mem_of_mem_logsAlong (fun _ onPath =>
    contains_of_mem_path contains (List.mem_filter.mp onPath).1) member with
    ⟨block, isInRange, level⟩
  rw [level]
  exact of_decide_eq_true (List.mem_filter.mp isInRange).2

/-- The blocks of a path that a range of heights covers are those that it adds. -/
theorem take_append_range (contains : tree.Contains last) {first final : Nat}
    (ordered : first ≤ final) :
    (tree.path last).take first ++ (tree.path last).filter (fun block =>
        decide (first ≤ block.number ∧ block.number ≤ final)) =
      (tree.path last).take (final + 1) := by
  have front : ((tree.path last).take (final + 1)).take first = (tree.path last).take first := by
    rw [List.take_take, Nat.min_eq_left (by omega)]
  have noneBelow : ((tree.path last).take first).filter (fun block =>
      decide (first ≤ block.number ∧ block.number ≤ final)) = [] := by
    rw [List.filter_eq_nil_iff]
    intro block member
    have := number_lt_of_mem_take contains member
    simp only [decide_eq_true_eq]
    omega
  have noneAbove : ((tree.path last).drop (final + 1)).filter (fun block =>
      decide (first ≤ block.number ∧ block.number ≤ final)) = [] := by
    rw [List.filter_eq_nil_iff]
    intro block member
    have := le_number_of_mem_drop contains member
    simp only [decide_eq_true_eq]
    omega
  have allWithin : (((tree.path last).take (final + 1)).drop first).filter (fun block =>
      decide (first ≤ block.number ∧ block.number ≤ final)) =
      ((tree.path last).take (final + 1)).drop first := by
    rw [List.filter_eq_self]
    intro block member
    have inFront := number_lt_of_mem_take contains (List.mem_of_mem_drop member)
    rw [List.drop_take] at member
    have behind := le_number_of_mem_drop contains (List.mem_of_mem_take member)
    simp only [decide_eq_true_eq]
    omega
  have parts := List.take_append_drop (final + 1) (tree.path last)
  have split := List.take_append_drop first ((tree.path last).take (final + 1))
  rw [front] at split
  have filtered := congrArg (List.filter fun block =>
    decide (first ≤ block.number ∧ block.number ≤ final)) parts
  rw [← split, List.filter_append, List.filter_append, noneBelow, noneAbove, allWithin,
    List.nil_append, List.append_nil] at filtered
  rw [← filtered, split]

/-- The logs above a height are those of the blocks above it. -/
theorem filter_logsAlong_path (contains : tree.Contains last) (height : Nat) :
    (tree.logsAlong filter (tree.path last)).filter (fun log => decide (height ≤ log.blockNumber)) =
      tree.logsAlong filter ((tree.path last).drop height) := by
  rw [← logsAlong_take_append_drop tree filter height (tree.path last), List.filter_append,
    List.filter_eq_nil_iff.mpr, List.filter_eq_self.mpr, List.nil_append]
  · intro log member
    simpa using le_blockNumber_of_mem_drop contains member
  · intro log member
    simpa using blockNumber_lt_of_mem_take contains member

end BlockTree

/-- The logs of an entry are those along the path to its last block. -/
def Entry.Matches (entry : Entry) (tree : BlockTree) (filter : Filter) : Prop :=
  match entry.lastBlock with
  | none => entry.logs = []
  | some last => tree.Contains last ∧ entry.logs = tree.logsAlong filter (tree.path last)

/-- Up to the height that an entry ends at, the chain below a head has the logs
that the path of the entry has. -/
def Entry.IsContinuedBy (entry : Entry) (tree : BlockTree) (filter : Filter) (head : Block) :
    Prop :=
  ∀ last, entry.lastBlock = some last →
    tree.logsAlong filter ((tree.path head).take (last.number + 1)) =
      tree.logsAlong filter (tree.path last)

namespace Entry

variable {tree : BlockTree} {filter : Filter} {entry : Entry} {last : Block}

instance (head : Block) : Decidable (entry.IsContinuedBy tree filter head) :=
  match ends : entry.lastBlock with
  | none => isTrue fun last same => by
      rw [ends] at same
      cases same
  | some last =>
      decidable_of_iff (tree.logsAlong filter ((tree.path head).take (last.number + 1)) =
          tree.logsAlong filter (tree.path last))
        ⟨fun same other isOther => by
          rw [ends] at isOther
          cases isOther
          exact same,
         fun continued => continued last ends⟩

theorem matches_of_lastBlock (ends : entry.lastBlock = some last) :
    entry.Matches tree filter ↔
      tree.Contains last ∧ entry.logs = tree.logsAlong filter (tree.path last) := by
  rw [Entry.Matches, ends]

theorem matches_of_no_lastBlock (empty : entry.lastBlock = none) :
    entry.Matches tree filter ↔ entry.logs = [] := by
  rw [Entry.Matches, empty]

/-- A range of logs behind an entry makes a matching entry exactly if it was taken
from a chain that continues the entry. -/
theorem matches_append_range {stored : Entry} {last? : Option Block} {head block : Block}
    {origin final : Nat} (entryMatches : entry.Matches tree filter)
    (ends : entry.lastBlock = last?) (isOrigin : origin = last?.elim 0 (·.number + 1))
    (ordered : origin ≤ final) (contains : tree.Contains head)
    (found : (tree.path head)[final]? = some block) (isLast : stored.lastBlock = some block)
    (logs : stored.logs = entry.logs ++ tree.logsAlong filter ((tree.path head).filter
      fun block => decide (origin ≤ block.number ∧ block.number ≤ final))) :
    stored.Matches tree filter ↔ entry.IsContinuedBy tree filter head := by
  rcases BlockTree.path_of_getElem? contains found with ⟨blockContained, -, path⟩
  rw [← BlockTree.take_append_range contains ordered] at path
  rw [matches_of_lastBlock isLast, path, logs, BlockTree.logsAlong_append, List.append_left_inj]
  cases last? with
  | none =>
      have empty : entry.logs = [] := (matches_of_no_lastBlock ends).mp entryMatches
      rw [isOrigin, empty]
      constructor
      · intro _ last isStored
        rw [ends] at isStored
        cases isStored
      · exact fun _ => ⟨blockContained, rfl⟩
  | some last =>
      rw [((matches_of_lastBlock ends).mp entryMatches).2, isOrigin]
      constructor
      · intro same last isStored
        rw [ends] at isStored
        cases isStored
        exact same.2.symm
      · exact fun continued => ⟨blockContained, (continued last ends).symm⟩

theorem apply_append (entry : Entry) (added : List Log) (block : Block) :
    entry.apply (.append added block) =
      .ok { entry with logs := entry.logs ++ added, lastBlock := some block } := rfl

/-- To cut an entry between two parts of its logs is to drop the second one. -/
theorem apply_cut (added removed : List Log) (block : Block) {front back : List Log}
    (logs : entry.logs = front ++ back) :
    entry.apply { added, removed, truncateTo := some front.length, block } =
      .ok { entry with logs := front ++ added, lastBlock := some block } := by
  have enough : ¬ entry.logs.length < front.length := by
    rw [logs, List.length_append]
    omega
  simp only [Entry.apply, enough, if_false]
  rw [logs, List.take_left]

end Entry

namespace Session

open BlockTree

variable {tree : BlockTree} {filter : Filter} {entry : Entry} {last : Block} {height : Nat}

/-- To cut an entry at a height is to cut the path that it matches. -/
theorem rollbackPoint_of_matches (height : Nat) (contains : tree.Contains last)
    (logs : entry.logs = tree.logsAlong filter (tree.path last)) :
    rollbackPoint height entry =
      .ok ((tree.logsAlong filter ((tree.path last).take height)).length,
        tree.logsAlong filter ((tree.path last).drop height)) := by
  have split : tree.logsAlong filter ((tree.path last).take height) ++
      tree.logsAlong filter ((tree.path last).drop height) = entry.logs := by
    rw [logs, logsAlong_take_append_drop]
  rcases exists_isCut_rollbackPoint height entry.holds_logs with ⟨cut, removed, found, isCut⟩
  rw [← split] at isCut
  rcases isCut.eq_of_append (fun _ member => blockNumber_lt_of_mem_take contains member)
    (fun _ member => le_blockNumber_of_mem_drop contains member) with ⟨rfl, rfl⟩
  exact found

end Session

end ReorgSync
