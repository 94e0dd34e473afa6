import ReorgSync.Log
import ReorgSync.Proofs.Block
import ReorgSync.Word

namespace ReorgSync

/-! All blocks that a chain ever had form a tree: each of them names its parent,
and from each of them one path leads down to a block without one. Whichever
block is the head at some time, its path is the canonical chain of that time. -/

/-- Blocks that are told apart by their hashes, and the logs written in each of
them. Every block above height zero has its parent in the tree, one height below
it. -/
structure BlockTree where
  block? : String → Option Block
  logs : String → List Log
  hash_eq : ∀ {hash block}, block? hash = some block → block.hash = hash
  exists_parent : ∀ {hash block}, block? hash = some block → block.number ≠ 0 →
    ∃ parent, block? block.parentHash = some parent ∧ block.number = parent.number + 1
  no_parent : ∀ {hash block}, block? hash = some block → block.number = 0 →
    block? block.parentHash = none
  /-- Heights, and the heights behind them, are words of 64 bits. -/
  height_lt : ∀ {hash block}, block? hash = some block → block.number + 1 < Word.size 64
  log_height : ∀ {hash block}, block? hash = some block →
    ∀ log ∈ logs hash, log.blockNumber = block.number

namespace BlockTree

variable {tree : BlockTree} {block child parent first last : Block} {height : Nat}

def Contains (tree : BlockTree) (block : Block) : Prop :=
  tree.block? block.hash = some block

instance : Decidable (tree.Contains block) :=
  inferInstanceAs (Decidable (_ = _))

theorem contains_of_block? {hash : String} (found : tree.block? hash = some block) :
    tree.Contains block := by
  rw [Contains, tree.hash_eq found]
  exact found

/-- A hash stands for one block only. -/
theorem eq_of_hash_eq (contains : tree.Contains block) (other : tree.Contains parent)
    (same : block.hash = parent.hash) : block = parent := by
  rw [Contains, same, other] at contains
  exact (Option.some.inj contains).symm

theorem extends_of_block? (contains : tree.Contains child)
    (found : tree.block? child.parentHash = some parent) : child.Extends parent := by
  by_cases zero : child.number = 0
  · rw [tree.no_parent contains zero] at found
    contradiction
  · obtain ⟨other, otherFound, next⟩ := tree.exists_parent contains zero
    rw [found] at otherFound
    cases otherFound
    exact ⟨next, (tree.hash_eq found).symm⟩

theorem block?_of_extends (contains : tree.Contains parent) (extending : child.Extends parent) :
    tree.block? child.parentHash = some parent := by
  rw [extending.2]
  exact contains

theorem exists_extends (contains : tree.Contains child) (above : child.number ≠ 0) :
    ∃ parent, tree.Contains parent ∧ child.Extends parent := by
  obtain ⟨parent, found, _⟩ := tree.exists_parent contains above
  exact ⟨parent, contains_of_block? found, extends_of_block? contains found⟩

/-- What holds of the blocks without parents, and of a block if it holds of its
parent, holds of all blocks of a tree. -/
theorem induction_on_path {motive : (block : Block) → tree.Contains block → Prop}
    (root : ∀ block contains, block.number = 0 → motive block contains)
    (step : ∀ child parent contains contained, child.Extends parent →
      motive parent contained → motive child contains)
    (block : Block) (contains : tree.Contains block) : motive block contains := by
  generalize equal : block.number = height
  induction height generalizing block with
  | zero => exact root block contains equal
  | succ height induction =>
      obtain ⟨parent, contained, extending⟩ := exists_extends contains (by omega)
      have next := extending.1
      exact step block parent contains contained extending
        (induction parent contained (by omega))

/-! ## Paths -/

def pathOfLength (tree : BlockTree) : Nat → Block → List Block
  | 0, block => [block]
  | length + 1, block =>
      match tree.block? block.parentHash with
      | some parent => tree.pathOfLength length parent ++ [block]
      | none => [block]

/-- The path to a block from the block at height zero, oldest block first. -/
def path (tree : BlockTree) (block : Block) : List Block :=
  tree.pathOfLength block.number block

theorem path_of_zero (zero : block.number = 0) : tree.path block = [block] := by
  rw [path, zero, pathOfLength]

theorem path_of_extends (contains : tree.Contains parent) (extending : child.Extends parent) :
    tree.path child = tree.path parent ++ [child] := by
  rw [path, extending.1, pathOfLength, block?_of_extends contains extending]
  rfl

theorem length_path (contains : tree.Contains block) :
    (tree.path block).length = block.number + 1 := by
  induction block, contains using induction_on_path with
  | root block _ zero => simp [path_of_zero zero, zero]
  | step child parent _ contained extending induction =>
      simp [path_of_extends contained extending, induction, extending.1]

theorem length_drop_path (contains : tree.Contains block) (height : Nat) :
    ((tree.path block).drop (height + 1)).length = block.number - height := by
  rw [List.length_drop, length_path contains]
  omega

theorem getElem?_path_number (contains : tree.Contains block) :
    (tree.path block)[block.number]? = some block := by
  induction block, contains using induction_on_path with
  | root block _ zero => simp [path_of_zero zero, zero]
  | step child parent _ contained extending _ =>
      rw [path_of_extends contained extending, extending.1,
        List.getElem?_append_right (Nat.le_of_eq (length_path contained))]
      simp [length_path contained]

/-- The block at a height of a path lies at that height, and its own path is the
path as far as there. -/
theorem path_of_getElem? (contains : tree.Contains last)
    (found : (tree.path last)[height]? = some block) :
    tree.Contains block ∧ block.number = height ∧
      tree.path block = (tree.path last).take (height + 1) := by
  induction last, contains using induction_on_path with
  | root last contains zero =>
      rw [path_of_zero zero] at found ⊢
      obtain ⟨rfl, rfl⟩ : height = 0 ∧ last = block := by
        simpa [List.getElem?_singleton] using found
      exact ⟨contains, zero, by simp [path_of_zero zero]⟩
  | step child parent contains contained extending induction =>
      rw [path_of_extends contained extending] at found ⊢
      have length := length_path contained
      by_cases within : height < (tree.path parent).length
      · rw [List.getElem?_append_left within] at found
        obtain ⟨blockContained, number, path⟩ := induction found
        refine ⟨blockContained, number, ?_⟩
        rw [path, List.take_append_of_le_length (by omega)]
      · rw [List.getElem?_append_right (by omega)] at found
        obtain ⟨zero, rfl⟩ : height - (tree.path parent).length = 0 ∧ child = block := by
          simpa [List.getElem?_singleton] using found
        have next := extending.1
        refine ⟨contains, by omega, ?_⟩
        rw [path_of_extends contained extending, List.take_of_length_le]
        simp only [List.length_append, List.length_singleton]
        omega

/-- Every height up to that of a block has a block on its path. -/
theorem exists_getElem?_path (contains : tree.Contains last) (below : height ≤ last.number) :
    ∃ block, (tree.path last)[height]? = some block := by
  have length := length_path contains
  exact ⟨_, List.getElem?_eq_getElem (by omega)⟩

theorem mem_path_iff (contains : tree.Contains last) :
    block ∈ tree.path last ↔ (tree.path last)[block.number]? = some block := by
  constructor
  · intro member
    obtain ⟨height, found⟩ := List.mem_iff_getElem?.mp member
    rw [(path_of_getElem? contains found).2.1]
    exact found
  · exact List.mem_of_getElem?

theorem contains_of_mem_path (contains : tree.Contains last) (member : block ∈ tree.path last) :
    tree.Contains block :=
  (path_of_getElem? contains ((mem_path_iff contains).mp member)).1

theorem number_le_of_mem_path (contains : tree.Contains last) (member : block ∈ tree.path last) :
    block.number ≤ last.number := by
  have found := (mem_path_iff contains).mp member
  have within := (List.getElem?_eq_some_iff.mp found).1
  rw [length_path contains] at within
  omega

theorem path_of_mem_path (contains : tree.Contains last) (member : block ∈ tree.path last) :
    tree.path block = (tree.path last).take (block.number + 1) :=
  (path_of_getElem? contains ((mem_path_iff contains).mp member)).2.2

theorem self_mem_path (contains : tree.Contains block) : block ∈ tree.path block :=
  (mem_path_iff contains).mpr (getElem?_path_number contains)

/-- A path has one block at each height. -/
theorem eq_of_mem_path {other : Block} (contains : tree.Contains last)
    (member : block ∈ tree.path last) (otherMember : other ∈ tree.path last)
    (level : block.number = other.number) : block = other := by
  have found := (mem_path_iff contains).mp member
  have otherFound := (mem_path_iff contains).mp otherMember
  rw [level, otherFound] at found
  exact (Option.some.inj found).symm

/-- Where two paths have different blocks at a height, what they share lies below it. -/
theorem number_lt_of_parted {head canonical ancestor : Block} (contains : tree.Contains last)
    (headContains : tree.Contains head) (member : canonical ∈ tree.path head)
    (level : canonical.number = last.number) (differs : canonical ≠ last)
    (below : ancestor ∈ tree.path last) (onChain : ancestor ∈ tree.path head) :
    ancestor.number < last.number := by
  apply Nat.lt_of_le_of_ne (number_le_of_mem_path contains below)
  intro same
  have isLast := eq_of_mem_path contains below (self_mem_path contains) same
  have isCanonical := eq_of_mem_path headContains onChain member (same.trans level.symm)
  exact differs (isCanonical.symm.trans isLast)

theorem parent_mem_path (contains : tree.Contains last) (member : child ∈ tree.path last)
    (contained : tree.Contains parent) (extending : child.Extends parent) :
    parent ∈ tree.path last := by
  have above : parent ∈ tree.path child := by
    rw [path_of_extends contained extending]
    exact List.mem_append_left _ (self_mem_path contained)
  rw [path_of_mem_path contains member] at above
  exact List.mem_of_mem_take above

/-! ## Linked runs -/

/-- A run of blocks of the tree, each of which extends the one before it. -/
def IsRun (tree : BlockTree) (blocks : List Block) : Prop :=
  Block.Linked blocks ∧ ∀ block ∈ blocks, tree.Contains block

instance {blocks : List Block} : Decidable (tree.IsRun blocks) :=
  inferInstanceAs (Decidable (_ ∧ _))

theorem isRun_nil : tree.IsRun [] :=
  ⟨trivial, by simp⟩

theorem isRun_singleton (contains : tree.Contains block) : tree.IsRun [block] :=
  ⟨trivial, by simpa using contains⟩

theorem IsRun.cons {newer : List Block} (run : tree.IsRun (child :: newer))
    (contains : tree.Contains parent) (extending : child.Extends parent) :
    tree.IsRun (parent :: child :: newer) := by
  refine ⟨⟨extending, run.1⟩, fun block member => ?_⟩
  rcases List.mem_cons.mp member with rfl | member
  · exact contains
  · exact run.2 block member

theorem IsRun.right {front back : List Block} (run : tree.IsRun (front ++ back)) :
    tree.IsRun back :=
  ⟨(Block.linked_append.mp run.1).2.1, fun block member =>
    run.2 block (List.mem_append_right front member)⟩

theorem IsRun.left {front back : List Block} (run : tree.IsRun (front ++ back)) :
    tree.IsRun front :=
  ⟨(Block.linked_append.mp run.1).1, fun block member =>
    run.2 block (List.mem_append_left back member)⟩

theorem IsRun.filter_above {blocks : List Block} (run : tree.IsRun blocks) (height : Nat) :
    tree.IsRun (blocks.filter fun block => decide (height < block.number)) := by
  rcases run.1.filter_above height with ⟨front, split⟩
  rw [split] at run
  exact run.right

theorem getLast?_path (contains : tree.Contains block) :
    (tree.path block).getLast? = some block := by
  rw [List.getLast?_eq_getElem?, length_path contains]
  exact getElem?_path_number contains

theorem isRun_path (contains : tree.Contains last) : tree.IsRun (tree.path last) := by
  refine ⟨?_, fun block member => contains_of_mem_path contains member⟩
  induction last, contains using induction_on_path with
  | root last _ zero =>
      rw [path_of_zero zero]
      trivial
  | step child parent _ contained extending induction =>
      rw [path_of_extends contained extending, Block.linked_append]
      refine ⟨induction, trivial, ?_⟩
      intro older isLast newer isFirst
      rw [getLast?_path contained] at isLast
      cases isLast
      cases isFirst
      exact extending

/-- A run whose first block extends a block of the tree. -/
theorem IsRun.behind {run : List Block} (isRun : tree.IsRun run) (contains : tree.Contains parent)
    (extending : ∀ first ∈ run.head?, first.Extends parent) : tree.IsRun (parent :: run) := by
  cases run with
  | nil => exact isRun_singleton contains
  | cons first rest => exact isRun.cons contains (extending first rfl)

/-- A linked run behind a block continues its path. -/
theorem path_append_run {run : List Block} (contains : tree.Contains first)
    (linked : tree.IsRun (first :: run)) :
    tree.path ((first :: run).getLast (List.cons_ne_nil _ _)) = tree.path first ++ run := by
  induction run generalizing first with
  | nil => simp
  | cons next rest induction =>
      have nextContained : tree.Contains next := linked.2 next (by simp)
      have continues := induction nextContained
        ⟨linked.1.2, fun block member => linked.2 block (List.mem_cons_of_mem _ member)⟩
      rw [List.getLast_cons (List.cons_ne_nil _ _), continues,
        path_of_extends contains linked.1.1]
      simp

theorem IsRun.path_getLast? {blocks : List Block} (isRun : tree.IsRun blocks)
    (contains : tree.Contains parent) (extending : ∀ first ∈ blocks.head?, first.Extends parent)
    (isLast : blocks.getLast? = some last) : tree.path last = tree.path parent ++ blocks := by
  have path := path_append_run contains (isRun.behind contains extending)
  have same : (parent :: blocks).getLast (List.cons_ne_nil _ _) = last := by
    rw [List.getLast_eq_iff_getLast?_eq_some, List.getLast?_cons, isLast, Option.getD_some]
  rw [same] at path
  exact path

theorem IsRun.path_getLast?_of_zero {newer : List Block} (isRun : tree.IsRun (first :: newer))
    (zero : first.number = 0) (isLast : (first :: newer).getLast? = some last) :
    tree.path last = first :: newer := by
  have path := path_append_run (isRun.2 first List.mem_cons_self) isRun
  have same : (first :: newer).getLast (List.cons_ne_nil _ _) = last := by
    rw [List.getLast_eq_iff_getLast?_eq_some]
    exact isLast
  rw [same, path_of_zero zero] at path
  exact path

/-- A run is the newest part of the path to its last block. -/
theorem IsRun.path_getLast?_eq_append {blocks : List Block} (isRun : tree.IsRun blocks)
    (isLast : blocks.getLast? = some last) : ∃ front, tree.path last = front ++ blocks := by
  cases blocks with
  | nil => simp at isLast
  | cons first newer =>
      have contains := isRun.2 first List.mem_cons_self
      by_cases zero : first.number = 0
      · exact ⟨[], isRun.path_getLast?_of_zero zero isLast⟩
      · rcases exists_extends contains zero with ⟨parent, contained, extending⟩
        refine ⟨tree.path parent, isRun.path_getLast? contained ?_ isLast⟩
        intro _ same
        cases same
        exact extending

/-- The first block of a run lies on the path of each block in it. -/
theorem head_mem_path_of_mem {run : List Block} (isRun : tree.IsRun (first :: run))
    (member : block ∈ first :: run) : first ∈ tree.path block := by
  rcases List.append_of_mem member with ⟨front, back, split⟩
  have contains := isRun.2 first List.mem_cons_self
  cases front with
  | nil =>
      rw [List.nil_append, List.cons.injEq] at split
      rw [← split.1]
      exact self_mem_path contains
  | cons oldest front =>
      rw [List.cons_append, List.cons.injEq] at split
      rcases split with ⟨rfl, rfl⟩
      have upTo : tree.IsRun (first :: (front ++ [block])) := by
        have parts : first :: (front ++ block :: back) =
            (first :: (front ++ [block])) ++ back := by simp
        rw [parts] at isRun
        exact isRun.left
      have path := path_append_run contains upTo
      rw [List.getLast_cons (by simp), List.getLast_append_singleton] at path
      rw [path]
      exact List.mem_append_left _ (self_mem_path contains)

/-- A run that holds a block by its hash lies on the path of that block from its first
block on. -/
theorem head_mem_path_of_hash {run : List Block} (isRun : tree.IsRun (first :: run))
    (contains : tree.Contains last)
    (isHash : (first :: run).any (·.hash == last.hash) = true) : first ∈ tree.path last := by
  rcases List.any_eq_true.mp isHash with ⟨other, member, same⟩
  rw [← eq_of_hash_eq (isRun.2 other member) contains (beq_iff_eq.mp same)]
  exact head_mem_path_of_mem isRun member

/-! ## Nearest ancestors -/

/-- The newest block of a path that is one of some blocks. -/
def nearest? (tree : BlockTree) (blocks : List Block) (last : Block) : Option Block :=
  (tree.path last).reverse.find? fun block => decide (block ∈ blocks)

theorem nearest?_eq_some {blocks : List Block} (contains : tree.Contains last)
    (found : tree.nearest? blocks last = some block) :
    block ∈ tree.path last ∧ block ∈ blocks ∧
      ∀ other ∈ tree.path last, other ∈ blocks → other.number ≤ block.number := by
  rcases List.find?_eq_some_iff_append.mp found with ⟨isBlock, newer, older, split, absent⟩
  have path : tree.path last = older.reverse ++ block :: newer.reverse := by
    have reversed := congrArg List.reverse split
    rw [List.reverse_reverse] at reversed
    rw [reversed]
    simp
  have place : (tree.path last)[older.reverse.length]? = some block := by
    rw [path, List.getElem?_append_right (Nat.le_refl _), Nat.sub_self]
    rfl
  have number := (path_of_getElem? contains place).2.1
  refine ⟨List.mem_of_getElem? place, of_decide_eq_true isBlock, fun other member among => ?_⟩
  apply Nat.le_of_not_lt
  intro above
  -- Blocks above the one that was found come before it in the search.
  have found := (mem_path_iff contains).mp member
  rw [path, List.getElem?_append_right (by omega), List.getElem?_cons,
    if_neg (by omega)] at found
  have passed := absent other (List.mem_reverse.mp (List.mem_of_getElem? found))
  simp [among] at passed

theorem nearest?_eq_none_iff {blocks : List Block} :
    tree.nearest? blocks last = none ↔ ∀ block ∈ tree.path last, block ∉ blocks := by
  simp [nearest?]

/-- The nearest ancestor is known by its height. -/
theorem nearest?_of_newest {blocks : List Block} (contains : tree.Contains last)
    (member : block ∈ tree.path last) (among : block ∈ blocks)
    (newest : ∀ other ∈ tree.path last, other ∈ blocks → other.number ≤ block.number) :
    tree.nearest? blocks last = some block := by
  cases found : tree.nearest? blocks last with
  | none => exact absurd among (nearest?_eq_none_iff.mp found block member)
  | some other =>
      rcases nearest?_eq_some contains found with ⟨otherMember, otherAmong, otherNewest⟩
      have level := Nat.le_antisymm (otherNewest block member among)
        (newest other otherMember otherAmong)
      rw [eq_of_mem_path contains member otherMember level]

theorem nearest?_of_mem {blocks : List Block} (contains : tree.Contains last)
    (among : last ∈ blocks) : tree.nearest? blocks last = some last :=
  nearest?_of_newest contains (self_mem_path contains) among
    fun _ member _ => number_le_of_mem_path contains member

/-- A block that is none of them has the nearest ancestor that its parent has. -/
theorem nearest?_of_extends {blocks : List Block} (contains : tree.Contains parent)
    (extending : child.Extends parent) (apart : child ∉ blocks) :
    tree.nearest? blocks child = tree.nearest? blocks parent := by
  rw [nearest?, path_of_extends contains extending, List.reverse_append, List.reverse_singleton,
    List.singleton_append, List.find?_cons_of_neg (by simpa using apart), nearest?]

end BlockTree

end ReorgSync
