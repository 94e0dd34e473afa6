import ReorgSync.Proofs.Follower.Deltas

namespace ReorgSync

/-! Which reorganisations a follower repairs, if its window is full and the node serves
every block by its hash. The walk back from a candidate has as many steps as the
window has blocks, and it has to end at a block of the window. -/

/-- A node that serves the blocks of a tree by their hashes, whatever else it answers.
No one else changes the state. -/
def BlockTree.serving (tree : BlockTree) : Conduct σ ω :=
  fun query state _ answer after _ => after = state ∧
    match query, answer with
    | .node (.blockByHash hash _), reply => reply = .ok (tree.block? hash)
    | _, _ => True

namespace Routine

/-- The routine ends with one value, and changes nothing. -/
def Finds (conduct : Conduct σ ω) (value : α) (routine : Routine σ α) (state : σ)
    (world : ω) : Prop :=
  routine.Keeps conduct (fun _ _ => True)
    (Outcome.Meets (fun found after _ => found = value ∧ after = state) fun _ _ => False)
    state world

theorem Finds.andThen {conduct : Conduct σ ω} {value : α} {first : Routine σ α}
    {second : α → Routine σ β} {ends : Outcome β → σ → ω → Prop} {state : σ} {world : ω}
    (finds : first.Finds conduct value state world)
    (continues : ∀ later,
      (second value).Keeps conduct (fun _ _ => True) ends state later) :
    (first >>= second).Keeps conduct (fun _ _ => True) ends state world := by
  refine Keeps.bind finds ?_ (fun _ _ _ never => never.elim) fun _ _ _ never => never.elim
  rintro _ _ later ⟨rfl, rfl⟩
  exact continues later

end Routine

namespace BlockTree

variable {tree : BlockTree} {last base : Block} {count : Nat}

/-- So many blocks below a block of a path. -/
theorem exists_path_append (contains : tree.Contains last) (deep : count ≤ last.number) :
    ∃ ancestor between, tree.Contains ancestor ∧ ancestor.number + count = last.number ∧
      between.length = count ∧ tree.path last = tree.path ancestor ++ between := by
  rcases exists_getElem?_path contains (Nat.sub_le last.number count) with ⟨ancestor, found⟩
  rcases path_of_getElem? contains found with ⟨contained, number, path⟩
  refine ⟨ancestor, (tree.path last).drop (last.number - count + 1), contained, ?_, ?_, ?_⟩
  · omega
  · rw [length_drop_path contains]
    omega
  · rw [path, List.take_append_drop]

/-- The branch that a path takes behind one of its blocks. -/
theorem exists_branch (contains : tree.Contains last) (member : base ∈ tree.path last) :
    ∃ branch, tree.path last = tree.path base ++ branch ∧
      branch.length = last.number - base.number ∧ tree.IsRun branch ∧
      ∀ first ∈ branch.head?, first.Extends base := by
  have contained := contains_of_mem_path contains member
  have split : tree.path last = tree.path base ++ (tree.path last).drop (base.number + 1) := by
    rw [path_of_mem_path contains member, List.take_append_drop]
  have isRun := isRun_path contains
  rw [split] at isRun
  exact ⟨_, split, length_drop_path contains base.number, isRun.right,
    (Block.linked_append.mp isRun.1).2.2 base (getLast?_path contained)⟩

end BlockTree

namespace Follower

open Routine (Finds Keeps)

variable {tree : BlockTree} {follower : Follower} {world : ω}
  {head base candidate oldest ancestor parent child : Block} {newer between : List Block}

/-! ## Walks in a tree -/

theorem finds_parent (contains : tree.Contains parent) (extending : child.Extends parent)
    (retryDelay patience : Nat) (state : Follower) (world : ω) :
    (fetchParent retryDelay child patience).Finds tree.serving (parent, patience)
      state world := by
  have found := BlockTree.block?_of_extends contains extending
  cases patience with
  | zero =>
      rintro _ _ later ⟨rfl, rfl⟩
      rw [found]
      exact ⟨rfl, rfl⟩
  | succ patience =>
      rintro _ _ later ⟨rfl, rfl⟩
      rw [found]
      exact ⟨rfl, rfl⟩

theorem finds_ancestors (retryDelay count patience : Nat) (contains : tree.Contains oldest)
    (deep : count ≤ oldest.number) (newer : List Block) (state : Follower) (world : ω) :
    (fetchAncestors retryDelay count patience oldest newer).Finds tree.serving
      ((tree.path oldest).rtake (count + 1) ++ newer) state world := by
  induction count generalizing oldest newer patience world with
  | zero =>
      have isLast : [oldest].getLast? = some oldest := rfl
      rcases (BlockTree.isRun_singleton contains).path_getLast?_eq_append isLast with
        ⟨front, path⟩
      rw [path, List.rtake_concat_succ, List.rtake_zero]
      exact ⟨rfl, rfl⟩
  | succ count induction =>
      rcases BlockTree.exists_extends contains (by omega) with ⟨parent, contained, extending⟩
      have next := extending.1
      refine (finds_parent contained extending retryDelay patience state world).andThen ?_
      intro later
      have further := induction patience contained (by omega) (oldest :: newer) later
      rw [BlockTree.path_of_extends contained extending, List.rtake_concat_succ,
        List.append_assoc]
      exact further

/-- As long as no parent is in the window, a walk goes from block to block. -/
theorem keeps_link_walk {height steps patience : Nat} {state : Follower}
    {ends : Outcome Resolution → Follower → ω → Prop} (contains : tree.Contains oldest)
    (contained : tree.Contains ancestor)
    (path : tree.path oldest = tree.path ancestor ++ between)
    (apart : ∀ block ∈ tree.path oldest, ancestor.number ≤ block.number →
      block.number < oldest.number →
        Window.split? block.parentHash follower.window.blocks = none)
    (continues : ∀ later, (follower.link height steps patience ancestor (between ++ newer)).Keeps
      tree.serving (fun _ _ => True) ends state later) :
    (follower.link height (between.length + steps) patience oldest newer).Keeps
      tree.serving (fun _ _ => True) ends state world := by
  induction between using List.reverseRecOn generalizing oldest newer world with
  | nil =>
      have same := BlockTree.getLast?_path contains
      rw [path, List.append_nil, BlockTree.getLast?_path contained] at same
      cases same
      rw [List.length_nil, Nat.zero_add]
      exact continues world
  | append_singleton between last induction =>
      have length := BlockTree.length_path contains
      have lengthBelow := BlockTree.length_path contained
      have isLast := BlockTree.getLast?_path contains
      rw [path, ← List.append_assoc, List.getLast?_concat] at isLast
      cases isLast
      rw [path] at length
      simp only [List.length_append, List.length_singleton, lengthBelow] at length
      rcases BlockTree.exists_extends contains (by omega) with ⟨parent, parentIn, extending⟩
      have next := extending.1
      have pathOfParent := BlockTree.path_of_extends parentIn extending
      have shorter : tree.path parent = tree.path ancestor ++ between := by
        rw [pathOfParent, ← List.append_assoc] at path
        exact List.append_cancel_right path
      have within : ∀ block ∈ tree.path parent, block ∈ tree.path last := by
        intro block member
        rw [pathOfParent]
        exact List.mem_append_left _ member
      have unlinked := apart parent (within parent (BlockTree.self_mem_path parentIn))
        (by omega) (by omega)
      have steps_eq : (between ++ [last]).length + steps = between.length + steps + 1 := by
        rw [List.length_append, List.length_singleton]
        omega
      rw [steps_eq, link]
      refine (finds_parent parentIn extending _ patience state world).andThen ?_
      intro later
      simp only [unlinked]
      refine induction parentIn shorter ?_ ?_
      · intro block member above below
        exact apart block (within block member) above (by omega)
      · intro later
        have further := continues later
        rw [List.append_assoc, List.singleton_append] at further
        exact further

/-- A child of a block of the window needs no walk. -/
theorem finds_child {kept removed : List Block} (isHead : follower.window.head? = some head)
    (isWindow : Window.split? candidate.parentHash follower.window.blocks = some (kept, removed))
    (state : Follower) (world : ω) :
    (follower.resolve candidate).Finds tree.serving ⟨kept, removed, [candidate]⟩ state world := by
  rw [resolve]
  simp only [isHead, isWindow]
  exact ⟨rfl, rfl⟩

/-- A walk comes to a block of the window behind as many blocks as it has steps for, or
fewer. -/
theorem finds_link {kept removed branch : List Block} (contains : tree.Contains candidate)
    (below : base ∈ tree.path candidate) (notParent : base.number + 1 < candidate.number)
    (reach : candidate.number ≤ base.number + follower.backlog + 1)
    (isWindow : Window.split? base.hash follower.window.blocks = some (kept, removed))
    (path : tree.path candidate = tree.path base ++ branch)
    (apart : ∀ block ∈ tree.path candidate, base.number + 1 < block.number →
      Window.split? block.parentHash follower.window.blocks = none)
    (state : Follower) (world : ω) :
    (follower.link candidate.number follower.backlog follower.backlog candidate []).Finds
      tree.serving ⟨kept, removed, branch⟩ state world := by
  have contained := BlockTree.contains_of_mem_path contains below
  rcases BlockTree.exists_branch contains below with ⟨other, split, length, isRun, extending⟩
  rw [path] at split
  cases List.append_cancel_left split
  match branch with
  | [] | [_] =>
      simp only [List.length_cons, List.length_nil] at length
      omega
  | first :: next :: rest =>
      simp only [List.length_cons] at length
      have firstNext := isRun.1.1
      have firstIn := isRun.2 first List.mem_cons_self
      have nextIn := isRun.2 next (List.mem_cons_of_mem _ List.mem_cons_self)
      have firstNumber := (extending first rfl).1
      have nextNumber := firstNext.1
      have pathOfNext : tree.path candidate = tree.path next ++ rest := by
        rw [path, BlockTree.path_of_extends firstIn firstNext,
          BlockTree.path_of_extends contained (extending first rfl)]
        simp
      obtain ⟨steps, budget⟩ : ∃ steps, rest.length + (steps + 1) = follower.backlog :=
        ⟨follower.backlog - rest.length - 1, by omega⟩
      have walk : (follower.link candidate.number (rest.length + (steps + 1)) follower.backlog
          candidate []).Finds tree.serving ⟨kept, removed, first :: next :: rest⟩ state
            world := by
        refine keeps_link_walk contains nextIn pathOfNext ?_ fun later => ?_
        · intro block member above _
          exact apart block member (by omega)
        · rw [link]
          refine (finds_parent firstIn firstNext _ _ state later).andThen fun later => ?_
          simp only [(extending first rfl).2, isWindow]
          exact ⟨by rw [List.append_nil], rfl⟩
      rw [budget] at walk
      exact walk

/-- A walk ends when it has asked for as many ancestors as it may, and none of them is behind
a block of the window. -/
theorem keeps_link_too_deep (contains : tree.Contains candidate)
    (deep : follower.backlog ≤ candidate.number)
    (apart : ∀ block ∈ tree.path candidate, candidate.number ≤ block.number + follower.backlog →
      Window.split? block.parentHash follower.window.blocks = none)
    (state : Follower) (world : ω) :
    (follower.link candidate.number follower.backlog follower.backlog candidate []).Keeps
      tree.serving (fun _ _ => True) (fun outcome after _ =>
        outcome = .error (.reorgTooDeep candidate.number follower.backlog) ∧ after = state)
      state world := by
  rcases BlockTree.exists_path_append contains deep with
    ⟨ancestor, between, contained, number, length, path⟩
  have walk : (follower.link candidate.number (between.length + 0) follower.backlog candidate
      []).Keeps tree.serving (fun _ _ => True) (fun outcome after _ =>
        outcome = .error (.reorgTooDeep candidate.number follower.backlog) ∧ after = state)
        state world := by
    refine keeps_link_walk contains contained path ?_ fun later => ?_
    · intro block member above _
      exact apart block member (by omega)
    · exact ⟨rfl, rfl⟩
  rw [Nat.add_zero, length] at walk
  exact walk

/-- A candidate that is too far ahead comes with its newest ancestors. -/
theorem finds_far (contains : tree.Contains candidate) (positive : 0 < follower.backlog)
    (isHead : follower.window.head? = some head)
    (unlinked : Window.split? candidate.parentHash follower.window.blocks = none)
    (far : head.number + follower.backlog < candidate.number) (state : Follower) (world : ω) :
    (follower.resolve candidate).Finds tree.serving
      { kept := [], added := (tree.path candidate).rtake follower.backlog } state world := by
  rw [resolve]
  simp only [isHead, unlinked, far, if_true]
  refine (finds_ancestors _ _ _ contains (by omega) [] state world).andThen ?_
  intro later
  rw [List.append_nil, Nat.sub_add_cancel positive]
  exact ⟨rfl, rfl⟩

/-- What a reconciliation makes of a resolution: the newest blocks of those that are kept and
added are the window, and the change is answered and published. -/
def Takes (before : Follower) (resolution : Resolution) (outcome : Outcome (Option Delta))
    (after : Follower) : Prop :=
  outcome = .value (some ⟨resolution.added, resolution.removed⟩) ∧ after =
    { before with
      window := { before.window with
        blocks := (resolution.kept ++ resolution.added).rtake before.backlog }
      deltas := before.deltas.publish ⟨resolution.added, resolution.removed⟩ }

theorem keeps_reconcile_of_finds (fresh : follower.isStale candidate = false)
    {resolution : Resolution}
    (finds : (follower.resolve candidate).Finds tree.serving resolution follower world)
    (sound : { follower.window with blocks := resolution.kept : Window }.IsSound
      follower.backlog)
    (positive : 0 < follower.backlog)
    (linked : Block.Linked (resolution.kept ++ resolution.added)) :
    (reconcile candidate).Keeps tree.serving (fun _ _ => True)
      (fun outcome after _ => Takes follower resolution outcome after) follower world := by
  have pushed := sound.pushAll_eq positive linked
  apply Keeps.get_andThen
  simp only [id, fresh, Bool.false_eq_true, if_false]
  refine finds.andThen fun later => ?_
  rw [pushed]
  exact ⟨trivial, rfl, rfl⟩

theorem keeps_reconcile_of_fails (fresh : follower.isStale candidate = false) {error : SyncError}
    (fails : (follower.resolve candidate).Keeps tree.serving (fun _ _ => True)
      (fun outcome after _ => outcome = .error error ∧ after = follower) follower world) :
    (reconcile candidate).Keeps tree.serving (fun _ _ => True)
      (fun outcome after _ => outcome = .error error ∧ after = follower) follower world := by
  apply Keeps.get_andThen
  simp only [id, fresh, Bool.false_eq_true, if_false]
  refine fails.sequence ?_ ?_ ?_
  · rintro _ _ _ ⟨never, -⟩
    cases never
  · rintro error after later ⟨same, rfl⟩
    cases same
    exact ⟨rfl, rfl⟩
  · rintro _ _ _ ⟨never, -⟩
    cases never

/-! ## Displaced blocks -/

/-- A candidate at or above the head of a full window, whose branch leaves the branch of
the head below it. Both go through the base, and the head's blocks above the base are
displaced. -/
structure Displaces (tree : BlockTree) (follower : Follower) (head base candidate : Block) :
    Prop where
  contains : tree.Contains candidate
  isRun : tree.IsRun follower.window.blocks
  full : follower.window.blocks.length = follower.backlog
  capacity : follower.window.capacity = follower.backlog
  isHead : follower.window.head? = some head
  below_head : base ∈ tree.path head
  below_candidate : base ∈ tree.path candidate
  common_le : ∀ block ∈ tree.path head, block ∈ tree.path candidate → block.number ≤ base.number
  deep : base.number < head.number
  high : head.number ≤ candidate.number

/-- The candidate is so far above the head that the window begins anew, or the base is in
the window and the block behind the base is so many steps below the candidate. -/
def IsRepairable (backlog : Nat) (head base candidate : Block) : Prop :=
  head.number + backlog < candidate.number ∨
    (head.number < base.number + backlog ∧ candidate.number ≤ base.number + backlog + 1)

instance (backlog : Nat) (head base candidate : Block) :
    Decidable (IsRepairable backlog head base candidate) :=
  inferInstanceAs (Decidable (_ ∨ _))

/-- The window ends with the newest blocks of the candidate's path, and the change is
published. -/
def Repairs (tree : BlockTree) (before : Follower) (candidate : Block)
    (outcome : Outcome (Option Delta)) (after : Follower) : Prop :=
  ∃ delta, outcome = .value (some delta) ∧ after =
    { before with
      window := { before.window with blocks := (tree.path candidate).rtake before.backlog }
      deltas := before.deltas.publish delta }

namespace Displaces

variable (displaces : Displaces tree follower head base candidate)

include displaces

theorem contains_head : tree.Contains head :=
  displaces.isRun.2 head (Window.mem_of_head? displaces.isHead)

theorem positive : 0 < follower.backlog := by
  rw [← displaces.full]
  exact List.length_pos_of_mem (Window.mem_of_head? displaces.isHead)

/-- The window holds the newest blocks of the head's path. -/
theorem exists_front : ∃ front, tree.path head = front ++ follower.window.blocks ∧
    front.length + follower.backlog = head.number + 1 := by
  rcases displaces.isRun.path_getLast?_eq_append displaces.isHead with ⟨front, path⟩
  have length := BlockTree.length_path displaces.contains_head
  rw [path, List.length_append, displaces.full] at length
  exact ⟨front, path, length⟩

theorem mem_window_iff {block : Block} : block ∈ follower.window.blocks ↔
    block ∈ tree.path head ∧ head.number < block.number + follower.backlog := by
  rcases displaces.exists_front with ⟨front, path, length⟩
  have contains := displaces.contains_head
  constructor
  · intro member
    have above : block ∈ tree.path head := by
      rw [path]
      exact List.mem_append_right front member
    refine ⟨above, ?_⟩
    rcases List.mem_iff_getElem?.mp member with ⟨index, foundBehind⟩
    have found : (tree.path head)[front.length + index]? = some block := by
      rw [path, List.getElem?_append_right (Nat.le_add_right _ _), Nat.add_sub_cancel_left]
      exact foundBehind
    have number := (BlockTree.path_of_getElem? contains found).2.1
    omega
  · rintro ⟨member, above⟩
    have found := (BlockTree.mem_path_iff contains).mp member
    rw [path, List.getElem?_append_right (by omega)] at found
    exact List.mem_of_getElem? found

/-- Blocks of the branch whose parents are not in the window. -/
theorem split?_parentHash {block : Block} (member : block ∈ tree.path candidate)
    (apart : base.number + 1 < block.number ∨ block.number + follower.backlog ≤ head.number + 1) :
    Window.split? block.parentHash follower.window.blocks = none := by
  apply Window.split?_eq_none
  intro parent within same
  have contains := BlockTree.contains_of_mem_path displaces.contains member
  have contained := displaces.isRun.2 parent within
  have extending : block.Extends parent := by
    apply BlockTree.extends_of_block? contains
    rw [← same]
    exact contained
  have next := extending.1
  rcases displaces.mem_window_iff.mp within with ⟨belowHead, above⟩
  have common := displaces.common_le parent belowHead
    (BlockTree.parent_mem_path displaces.contains member contained extending)
  omega

theorem fresh : follower.isStale candidate = false := by
  rw [Bool.eq_false_iff, ne_eq, isStale_iff]
  have high := displaces.high
  have deep := displaces.deep
  rintro (⟨block, within, same⟩ | ⟨oldest, isOldest, below⟩)
  · have eq := BlockTree.eq_of_hash_eq (displaces.isRun.2 block within) displaces.contains same
    rw [eq] at within
    have common := displaces.common_le candidate (displaces.mem_window_iff.mp within).1
      (BlockTree.self_mem_path displaces.contains)
    omega
  · have within := List.mem_of_head? isOldest
    have le := BlockTree.number_le_of_mem_path displaces.contains_head
      (displaces.mem_window_iff.mp within).1
    omega

/-- A resolution whose blocks are the newest ones of the candidate's path is taken in. -/
theorem keeps_reconcile_of_finds {resolution : Resolution} {front : List Block}
    (finds : (follower.resolve candidate).Finds tree.serving resolution follower world)
    (path : tree.path candidate = front ++ (resolution.kept ++ resolution.added))
    (enough : follower.backlog ≤ (resolution.kept ++ resolution.added).length)
    (bounded : resolution.kept.length ≤ follower.backlog) :
    (reconcile candidate).Keeps tree.serving (fun _ _ => True)
      (fun outcome after _ => Repairs tree follower candidate outcome after) follower world := by
  have linked := (BlockTree.isRun_path displaces.contains).1
  rw [path] at linked
  have linkedBehind := (Block.linked_append.mp linked).2.1
  have sound : { follower.window with blocks := resolution.kept : Window }.IsSound
      follower.backlog :=
    ⟨(Block.linked_append.mp linkedBehind).1, displaces.capacity, bounded⟩
  refine (Follower.keeps_reconcile_of_finds displaces.fresh finds sound displaces.positive
    linkedBehind).mono fun outcome after _ takes => ?_
  rw [Takes, ← Window.rtake_append_of_le_length enough, ← path] at takes
  exact ⟨_, takes⟩

/-- The base is in the window, and the walk comes to the block behind it. -/
theorem finds_branch {kept removed branch : List Block}
    (base_mem : Window.split? base.hash follower.window.blocks = some (kept, removed))
    (path : tree.path candidate = tree.path base ++ branch)
    (length : branch.length = candidate.number - base.number)
    (extending : ∀ first ∈ branch.head?, first.Extends base)
    (notFar : candidate.number ≤ head.number + follower.backlog)
    (reach : candidate.number ≤ base.number + follower.backlog + 1) :
    (follower.resolve candidate).Finds tree.serving ⟨kept, removed, branch⟩ follower world := by
  have deep := displaces.deep
  have high := displaces.high
  have contains := displaces.contains
  by_cases isParent : candidate.number = base.number + 1
  · have isLast := BlockTree.getLast?_path contains
    match branch with
    | [] | _ :: _ :: _ =>
        simp only [List.length_cons, List.length_nil] at length
        omega
    | [first] =>
        have sameHash := (extending first rfl).2
        rw [path, List.getLast?_concat] at isLast
        cases isLast
        rw [← sameHash] at base_mem
        exact finds_child displaces.isHead base_mem _ _
  · rw [resolve]
    have unlinked := displaces.split?_parentHash (BlockTree.self_mem_path contains)
      (.inl (by omega))
    simp only [displaces.isHead, unlinked, if_neg (Nat.not_lt.mpr notFar)]
    exact finds_link contains displaces.below_candidate (by omega) reach base_mem path
      (fun block member above => displaces.split?_parentHash member (.inl above)) _ _

/-- The window begins anew with the newest blocks of the candidate's path. -/
theorem finds_ahead (far : head.number + follower.backlog < candidate.number) :
    (follower.resolve candidate).Finds tree.serving
      { kept := [], added := (tree.path candidate).rtake follower.backlog } follower world := by
  have deep := displaces.deep
  have unlinked := displaces.split?_parentHash (BlockTree.self_mem_path displaces.contains)
    (.inl (by omega))
  exact finds_far displaces.contains displaces.positive displaces.isHead unlinked far _ _

/-- None of the blocks that the walk asks for is behind a block of the window. -/
theorem keeps_resolve_of_not_repairable
    (beyond : ¬ IsRepairable follower.backlog head base candidate) :
    (follower.resolve candidate).Keeps tree.serving (fun _ _ => True) (fun outcome after _ =>
      outcome = .error (.reorgTooDeep candidate.number follower.backlog) ∧ after = follower)
      follower world := by
  rw [IsRepairable] at beyond
  have deep := displaces.deep
  have high := displaces.high
  have contains := displaces.contains
  have unlinked := displaces.split?_parentHash (BlockTree.self_mem_path contains) (by omega)
  rw [resolve]
  simp only [displaces.isHead, unlinked, if_neg (not_or.mp beyond).1]
  exact keeps_link_too_deep contains (by omega)
    (fun block member near => displaces.split?_parentHash member (by omega)) _ _

theorem keeps_reconcile_ahead (far : head.number + follower.backlog < candidate.number) :
    (reconcile candidate).Keeps tree.serving (fun _ _ => True)
      (fun outcome after _ => Repairs tree follower candidate outcome after) follower world := by
  have length := BlockTree.length_path displaces.contains
  refine displaces.keeps_reconcile_of_finds (displaces.finds_ahead far)
    (List.take_append_drop _ _).symm ?_ (Nat.zero_le _)
  rw [List.nil_append, List.rtake, List.length_drop]
  omega

theorem keeps_reconcile_in_reach (inWindow : head.number < base.number + follower.backlog)
    (notFar : candidate.number ≤ head.number + follower.backlog)
    (reach : candidate.number ≤ base.number + follower.backlog + 1) :
    (reconcile candidate).Keeps tree.serving (fun _ _ => True)
      (fun outcome after _ => Repairs tree follower candidate outcome after) follower world := by
  have high := displaces.high
  have baseIn := BlockTree.contains_of_mem_path displaces.contains displaces.below_candidate
  have baseWithin := displaces.mem_window_iff.mpr ⟨displaces.below_head, inWindow⟩
  rcases Window.exists_split? baseWithin with ⟨kept, removed, split⟩
  rcases Window.split?_eq_some split with ⟨window, last, isLast, same⟩
  -- The base is the last block that is kept.
  have isRun := displaces.isRun
  rw [window] at isRun
  have lastIn := isRun.left.2 last (List.mem_of_getLast? isLast)
  rw [BlockTree.eq_of_hash_eq lastIn baseIn same] at isLast
  rcases isRun.left.path_getLast?_eq_append isLast with ⟨front, pathOfBase⟩
  rcases BlockTree.exists_branch displaces.contains displaces.below_candidate with
    ⟨branch, path, length, -, extending⟩
  -- No more blocks are displaced than the branch has.
  have keptLength : kept.length + removed.length = follower.backlog := by
    rw [← List.length_append, ← window, displaces.full]
  have removedLength : removed.length = head.number - base.number := by
    have isHead := displaces.isHead
    rw [Window.head?, window, List.getLast?_append] at isHead
    cases newest : removed.getLast? with
    | none =>
        rw [newest, Option.none_or, isLast] at isHead
        cases isHead
        rw [List.getLast?_eq_none_iff.mp newest, List.length_nil, Nat.sub_self]
    | some last =>
        rw [newest, Option.some_or] at isHead
        cases isHead
        have pathOfHead := isRun.right.path_getLast? baseIn
          ((Block.linked_append.mp isRun.1).2.2 base isLast) newest
        have headLength := BlockTree.length_path displaces.contains_head
        rw [pathOfHead, List.length_append, BlockTree.length_path baseIn] at headLength
        omega
  refine displaces.keeps_reconcile_of_finds
    (displaces.finds_branch split path length extending notFar reach)
    (by rw [path, pathOfBase, List.append_assoc]) ?_ (by dsimp only; omega)
  rw [List.length_append]
  dsimp only
  omega

theorem keeps_reconcile : (reconcile candidate).Keeps tree.serving (fun _ _ => True)
    (fun outcome after _ =>
      if IsRepairable follower.backlog head base candidate then
        Repairs tree follower candidate outcome after
      else outcome = .error (.reorgTooDeep candidate.number follower.backlog) ∧ after = follower)
    follower world := by
  by_cases repairable : IsRepairable follower.backlog head base candidate
  · simp only [if_pos repairable]
    by_cases far : head.number + follower.backlog < candidate.number
    · exact displaces.keeps_reconcile_ahead far
    · have inReach := repairable.resolve_left far
      exact displaces.keeps_reconcile_in_reach inReach.1 (Nat.not_lt.mp far) inReach.2
  · simp only [if_neg repairable]
    exact keeps_reconcile_of_fails displaces.fresh
      (displaces.keeps_resolve_of_not_repairable repairable)

end Displaces

/-- A reorganisation is repaired exactly if it is in reach. -/
theorem reconcile_repairs_in_reach {surroundings : Surroundings Follower ω} (world : ω)
    (follows : surroundings.Follows tree.serving)
    (displaces : Displaces tree follower head base candidate) :
    let ended := (reconcile candidate).run surroundings follower world
    if IsRepairable follower.backlog head base candidate then
      Repairs tree follower candidate ended.1 ended.2.1
    else
      ended.1 = .error (.reorgTooDeep candidate.number follower.backlog) ∧ ended.2.1 = follower :=
  displaces.keeps_reconcile.ends (Routine.ends_run follows _ _ _)

/-! A node that serves both branches of a fork, and followers whose windows are full. -/

theorem scripted_follows_serving (tree : BlockTree) (headAt : Nat → Block) :
    (Surroundings.scripted tree headAt : Surroundings Follower Nat).Follows tree.serving := by
  intro query state time answer after later answered
  cases answered
  refine ⟨rfl, ?_⟩
  cases query with
  | node call => cases call <;> trivial
  | _ => trivial

def filledWith (blocks : List Block) : Follower :=
  { make blocks.length 0 none with window := ⟨blocks, blocks.length⟩ }

/-- Two blocks of three are displaced, and the candidate is one above the head. -/
theorem reconcile_repairs_in_reach_at_fork :
    let before := filledWith [Fork.root, Fork.left 1, Fork.left 2]
    let ended := (reconcile (Fork.right 3)).run (.scripted Fork.tree fun _ => Fork.right 3) before 0
    Repairs Fork.tree before (Fork.right 3) ended.1 ended.2.1 ∧
      ended.2.1.window.blocks = [Fork.right 1, Fork.right 2, Fork.right 3] := by
  intro before ended
  have displaces : Displaces Fork.tree before (Fork.left 2) Fork.root (Fork.right 3) := by
    constructor <;> decide +kernel
  have repairs := reconcile_repairs_in_reach 0
    (scripted_follows_serving Fork.tree fun _ => Fork.right 3) displaces
  dsimp only at repairs
  rw [if_pos (by decide +kernel)] at repairs
  exact ⟨repairs, by decide +kernel⟩

/-- A reorganisation that displaces the whole window is not repaired, though it is as
deep as the backlog only. -/
theorem whole_window_not_repaired_at_fork :
    let before := filledWith [Fork.left 1, Fork.left 2]
    let ended := (reconcile (Fork.right 2)).run (.scripted Fork.tree fun _ => Fork.right 2) before 0
    Displaces Fork.tree before (Fork.left 2) Fork.root (Fork.right 2) ∧
      (Fork.left 2).number - Fork.root.number = before.backlog ∧
      ended.1 = .error (.reorgTooDeep 2 2) ∧ ended.2.1.window = before.window := by
  refine ⟨?_, by decide +kernel, ?_, by decide +kernel⟩
  · constructor <;> decide +kernel
  · rfl

end Follower

end ReorgSync
