import ReorgSync.Proofs.Follower.Repair

namespace ReorgSync

/-! What becomes of a new candidate, whatever the window holds, if the node serves every
block of a tree by its hash. The outcome can be read off the tree: it hangs on the nearest
ancestor of the candidate in the window, and on how far the candidate is above that
ancestor and above the head. -/

namespace Follower

open Routine (Finds Keeps)

variable {tree : BlockTree} {follower : Follower} {world : ω} {head base candidate child : Block}

/-! ## Reading the tree -/

/-- The window is kept up to a block, and its later blocks give way to other ones. -/
def Resolution.behind (base : Block) (window : Window) (added : List Block) : Resolution where
  kept := window.blocks.filter fun block => decide (block.number ≤ base.number)
  removed := window.blocks.filter fun block => decide (base.number < block.number)
  added

/-- How a new candidate hangs together with the window; nothing if it is refused. A child of
a block of the window is taken in behind its parent, and a candidate too far above the head
begins a new window. Any other has to be within reach of its nearest ancestor. -/
def verdict? (tree : BlockTree) (follower : Follower) (head candidate : Block) :
    Option Resolution :=
  let ahead : Resolution :=
    { kept := [], added := (tree.path candidate).rtake follower.backlog }
  let isFar : Bool := decide (head.number + follower.backlog < candidate.number)
  match tree.nearest? follower.window.blocks candidate with
  | none => if isFar then some ahead else none
  | some base =>
      if candidate.Extends base then some (.behind base follower.window [candidate])
      else if isFar then some ahead
      else if candidate.number ≤ base.number + follower.backlog + 1 then
        some (.behind base follower.window ((tree.path candidate).drop (base.number + 1)))
      else none

/-- A candidate that is refused changes nothing. Either it is too far above the window, or
its branch ends before the walk does. -/
def Refuses (tree : BlockTree) (before : Follower) (candidate : Block)
    (outcome : Outcome (Option Delta)) (after : Follower) : Prop :=
  after = before ∧
    (before.backlog ≤ candidate.number →
      outcome = .error (.reorgTooDeep candidate.number before.backlog)) ∧
    (candidate.number < before.backlog → ∃ root ∈ (tree.path candidate).head?,
      outcome = .error (.blockNotFound root.parentHash))

/-- A candidate of a tree, offered to a follower whose window is a run of the tree: it is
not in the window, and not below all of it. -/
structure Offers (tree : BlockTree) (follower : Follower) (head candidate : Block) : Prop where
  isRun : tree.IsRun follower.window.blocks
  sound : follower.window.IsSound follower.backlog
  positive : 0 < follower.backlog
  isHead : follower.window.head? = some head
  contains : tree.Contains candidate
  isNew : ∀ block ∈ follower.window.blocks, block.hash ≠ candidate.hash
  notBelow : ∀ oldest ∈ follower.window.oldest?, oldest.number ≤ candidate.number

/-! ## Walks to the root -/

/-- A parent that the tree does not have is asked for until the patience is used up. -/
theorem keeps_no_parent (absent : tree.block? child.parentHash = none)
    (retryDelay patience : Nat) (state : Follower) (world : ω) :
    (fetchParent retryDelay child patience).Keeps tree.serving (fun _ _ => True)
      (fun outcome after _ =>
        outcome = .error (.blockNotFound child.parentHash) ∧ after = state) state world := by
  induction patience generalizing world with
  | zero =>
      rintro _ _ later ⟨rfl, rfl⟩
      rw [absent]
      exact ⟨rfl, rfl⟩
  | succ patience induction =>
      rintro _ _ later ⟨rfl, rfl⟩
      rw [absent]
      rintro _ _ later ⟨rfl, -⟩
      exact induction later

/-- A walk with more steps than there are blocks below the candidate comes to the root. -/
theorem keeps_link_to_root (contains : tree.Contains candidate)
    (shallow : candidate.number < follower.backlog)
    (apart : ∀ block ∈ tree.path candidate,
      Window.split? block.parentHash follower.window.blocks = none)
    (state : Follower) (world : ω) :
    ∃ root ∈ (tree.path candidate).head?,
      (follower.link candidate.number follower.backlog follower.backlog candidate []).Keeps
        tree.serving (fun _ _ => True) (fun outcome after _ =>
          outcome = .error (.blockNotFound root.parentHash) ∧ after = state) state world := by
  rcases BlockTree.exists_path_append contains (Nat.le_refl candidate.number) with
    ⟨root, between, contained, number, length, path⟩
  have isRoot : root.number = 0 := by omega
  have isFirst : (tree.path candidate).head? = some root := by
    rw [path, BlockTree.path_of_zero isRoot]
    rfl
  obtain ⟨steps, budget⟩ : ∃ steps, between.length + (steps + 1) = follower.backlog :=
    ⟨follower.backlog - between.length - 1, by omega⟩
  have walk : (follower.link candidate.number (between.length + (steps + 1)) follower.backlog
      candidate []).Keeps tree.serving (fun _ _ => True) (fun outcome after _ =>
        outcome = .error (.blockNotFound root.parentHash) ∧ after = state) state world := by
    refine keeps_link_walk contains contained path (fun block member _ _ => apart block member) ?_
    intro later
    rw [link]
    refine (keeps_no_parent (tree.no_parent contained isRoot) _ _ state later).sequence ?_ ?_ ?_
    · rintro _ _ _ ⟨never, -⟩
      cases never
    · rintro error after later ⟨same, rfl⟩
      cases same
      exact ⟨rfl, rfl⟩
    · rintro _ _ _ ⟨never, -⟩
      cases never
  rw [budget] at walk
  exact ⟨root, isFirst, walk⟩

namespace Offers

variable (offers : Offers tree follower head candidate)

include offers

theorem fresh : follower.isStale candidate = false := by
  rw [Bool.eq_false_iff, ne_eq, isStale_iff]
  rintro (⟨block, within, same⟩ | ⟨oldest, isOldest, below⟩)
  · exact offers.isNew block within same
  · exact Nat.not_lt.mpr (offers.notBelow oldest isOldest) below

/-- Blocks of the branch whose parents are not in the window. -/
theorem unlinked {block : Block} (member : block ∈ tree.path candidate)
    (apart : ∀ base ∈ tree.nearest? follower.window.blocks candidate,
      base.number + 1 < block.number) :
    Window.split? block.parentHash follower.window.blocks = none := by
  apply Window.split?_eq_none
  intro parent within same
  have contained := offers.isRun.2 parent within
  have extending : block.Extends parent := by
    apply BlockTree.extends_of_block? (BlockTree.contains_of_mem_path offers.contains member)
    rw [← same]
    exact contained
  have next := extending.1
  have parentMember := BlockTree.parent_mem_path offers.contains member contained extending
  cases found : tree.nearest? follower.window.blocks candidate with
  | none => exact BlockTree.nearest?_eq_none_iff.mp found parent parentMember within
  | some base =>
      have newest := (BlockTree.nearest?_eq_some offers.contains found).2.2
      have le := newest parent parentMember within
      have above := apart base found
      omega

/-- The window is cut behind one of its blocks. -/
theorem split?_hash (within : base ∈ follower.window.blocks) (added : List Block) :
    let resolution := Resolution.behind base follower.window added
    Window.split? base.hash follower.window.blocks =
        some (resolution.kept, resolution.removed) ∧
      follower.window.blocks = resolution.kept ++ resolution.removed ∧
      resolution.kept.getLast? = some base := by
  rcases Window.exists_split? within with ⟨kept, removed, split⟩
  rcases Window.split?_eq_some split with ⟨window, last, isLast, same⟩
  have lastWithin : last ∈ follower.window.blocks := by
    rw [window]
    exact List.mem_append_left _ (List.mem_of_getLast? isLast)
  rw [BlockTree.eq_of_hash_eq (offers.isRun.2 last lastWithin) (offers.isRun.2 base within) same]
    at isLast
  have linked := offers.isRun.1
  rw [window] at linked
  have filtered := linked.filter_append isLast
  rw [← window] at filtered
  dsimp only [Resolution.behind]
  rw [filtered.1, filtered.2]
  exact ⟨split, window, isLast⟩

theorem keeps_reconcile_behind {added : List Block}
    (found : tree.nearest? follower.window.blocks candidate = some base)
    (path : tree.path candidate = tree.path base ++ added)
    (finds : (follower.resolve candidate).Finds tree.serving
      (.behind base follower.window added) follower world) :
    (reconcile candidate).Keeps tree.serving (fun _ _ => True)
      (fun outcome after _ => Takes follower (.behind base follower.window added) outcome after)
      follower world := by
  rcases BlockTree.nearest?_eq_some offers.contains found with ⟨below, within, -⟩
  have contained := BlockTree.contains_of_mem_path offers.contains below
  rcases offers.split?_hash within added with ⟨-, window, isLast⟩
  have linked := offers.sound.linked
  have bounded := offers.sound.length_le
  rw [window] at linked bounded
  rw [List.length_append] at bounded
  have keptLinked := (Block.linked_append.mp linked).1
  have pathLinked := (BlockTree.isRun_path offers.contains).1
  rw [path, Block.linked_append] at pathLinked
  refine keeps_reconcile_of_finds offers.fresh finds ?_ offers.positive ?_
  · exact ⟨keptLinked, offers.sound.capacity_eq, by dsimp only; omega⟩
  · rw [Block.linked_append]
    refine ⟨keptLinked, pathLinked.2.1, ?_⟩
    rw [isLast, ← BlockTree.getLast?_path contained]
    exact pathLinked.2.2

theorem keeps_reconcile_far (far : head.number + follower.backlog < candidate.number)
    (unlinked : Window.split? candidate.parentHash follower.window.blocks = none) :
    (reconcile candidate).Keeps tree.serving (fun _ _ => True)
      (fun outcome after _ => Takes follower
        { kept := [], added := (tree.path candidate).rtake follower.backlog } outcome after)
      follower world := by
  have finds := finds_far offers.contains offers.positive offers.isHead unlinked far follower world
  refine keeps_reconcile_of_finds offers.fresh finds ?_ offers.positive ?_
  · exact ⟨trivial, offers.sound.capacity_eq, Nat.zero_le _⟩
  · have linked := (BlockTree.isRun_path offers.contains).1
    rw [← List.take_append_drop ((tree.path candidate).length - follower.backlog)
      (tree.path candidate), Block.linked_append] at linked
    exact linked.2.1

theorem keeps_reconcile_refused
    (notFar : candidate.number ≤ head.number + follower.backlog)
    (beyond : ∀ base ∈ tree.nearest? follower.window.blocks candidate,
      base.number + follower.backlog + 1 < candidate.number) :
    (reconcile candidate).Keeps tree.serving (fun _ _ => True)
      (fun outcome after _ => Refuses tree follower candidate outcome after) follower world := by
  have contains := offers.contains
  have above {height : Nat} (reached : candidate.number ≤ height + follower.backlog) :
      ∀ base ∈ tree.nearest? follower.window.blocks candidate, base.number + 1 < height := by
    intro base found
    have tooFar := beyond base found
    omega
  have linked := offers.unlinked (BlockTree.self_mem_path contains) (above (by omega))
  have walks : follower.resolve candidate =
      follower.link candidate.number follower.backlog follower.backlog candidate [] := by
    rw [resolve]
    simp only [offers.isHead, linked, if_neg (Nat.not_lt.mpr notFar)]
  by_cases deep : follower.backlog ≤ candidate.number
  · have fails := keeps_link_too_deep contains deep (fun block member near =>
      offers.unlinked member fun base found => by have := beyond base found; omega) follower world
    rw [← walks] at fails
    refine (keeps_reconcile_of_fails offers.fresh fails).mono fun outcome after _ holds => ?_
    exact ⟨holds.2, fun _ => holds.1, fun shallow => by omega⟩
  · have apart : ∀ block ∈ tree.path candidate,
        Window.split? block.parentHash follower.window.blocks = none := by
      intro block member
      exact offers.unlinked member (above (by omega))
    rcases keeps_link_to_root contains (Nat.lt_of_not_le deep) apart follower world with
      ⟨root, isRoot, fails⟩
    rw [← walks] at fails
    refine (keeps_reconcile_of_fails offers.fresh fails).mono fun outcome after _ holds => ?_
    exact ⟨holds.2, fun isDeep => absurd isDeep deep, fun _ => ⟨root, isRoot, holds.1⟩⟩

theorem number_lt (found : tree.nearest? follower.window.blocks candidate = some base) :
    base.number < candidate.number := by
  rcases BlockTree.nearest?_eq_some offers.contains found with ⟨below, within, -⟩
  have le := BlockTree.number_le_of_mem_path offers.contains below
  have notSelf : base.number ≠ candidate.number := by
    intro level
    have same := BlockTree.eq_of_mem_path offers.contains below
      (BlockTree.self_mem_path offers.contains) level
    exact offers.isNew base within (congrArg Block.hash same)
  omega

/-- An ancestor in the window that is one height below is the parent. -/
theorem extends_of_number (below : base ∈ tree.path candidate)
    (next : candidate.number = base.number + 1) : candidate.Extends base := by
  rcases BlockTree.exists_extends offers.contains (by omega) with ⟨parent, contained, extending⟩
  have parentMember := BlockTree.parent_mem_path offers.contains
    (BlockTree.self_mem_path offers.contains) contained extending
  have level := extending.1
  rwa [BlockTree.eq_of_mem_path offers.contains below parentMember (by omega)]

theorem keeps_reconcile : (reconcile candidate).Keeps tree.serving (fun _ _ => True)
    (fun outcome after _ =>
      match verdict? tree follower head candidate with
      | some resolution => Takes follower resolution outcome after
      | none => Refuses tree follower candidate outcome after) follower world := by
  have contains := offers.contains
  have self := BlockTree.self_mem_path contains
  rw [verdict?]
  cases found : tree.nearest? follower.window.blocks candidate with
  | none =>
      by_cases far : head.number + follower.backlog < candidate.number
      · simp only [far, decide_true, if_true]
        exact offers.keeps_reconcile_far far (offers.unlinked self (by simp [found]))
      · simp only [far, decide_false, Bool.false_eq_true, if_false]
        exact offers.keeps_reconcile_refused (Nat.le_of_not_lt far) (by simp [found])
  | some base =>
      rcases BlockTree.nearest?_eq_some contains found with ⟨below, within, newest⟩
      have contained := BlockTree.contains_of_mem_path contains below
      by_cases child : candidate.Extends base
      · simp only [child, if_true]
        have isWindow := (offers.split?_hash within [candidate]).1
        rw [← child.2] at isWindow
        exact offers.keeps_reconcile_behind found (BlockTree.path_of_extends contained child)
          (finds_child offers.isHead isWindow _ _)
      · -- The nearest ancestor is more than one height below, so the parent is not in the window.
        have lt := offers.number_lt found
        have notParent : base.number + 1 < candidate.number := by
          have apart : candidate.number ≠ base.number + 1 := fun next =>
            child (offers.extends_of_number below next)
          omega
        have unlinked {block : Block} (member : block ∈ tree.path candidate)
            (above : base.number + 1 < block.number) :=
          offers.unlinked member fun other isBase => by
            rw [found] at isBase
            cases isBase
            exact above
        by_cases far : head.number + follower.backlog < candidate.number
        · simp only [child, far, decide_true, if_true, if_false]
          exact offers.keeps_reconcile_far far (unlinked self notParent)
        · by_cases reach : candidate.number ≤ base.number + follower.backlog + 1
          · simp only [child, far, reach, decide_false, Bool.false_eq_true, if_true, if_false]
            have path : tree.path candidate =
                tree.path base ++ (tree.path candidate).drop (base.number + 1) := by
              rw [BlockTree.path_of_mem_path contains below, List.take_append_drop]
            have isWindow := (offers.split?_hash within
              ((tree.path candidate).drop (base.number + 1))).1
            have linked := unlinked self notParent
            refine offers.keeps_reconcile_behind found path ?_
            rw [resolve]
            simp only [offers.isHead, linked, if_neg far]
            exact finds_link contains below notParent reach isWindow path
              (fun block member above => unlinked member above) _ _
          · simp only [child, far, reach, decide_false, Bool.false_eq_true, if_false]
            refine offers.keeps_reconcile_refused (Nat.le_of_not_lt far) fun other isBase => ?_
            rw [found] at isBase
            cases isBase
            exact Nat.lt_of_not_le reach

/-- What a verdict adds ends with the candidate, and is no longer than the window if nothing
is kept. -/
theorem verdict?_shape {resolution : Resolution}
    (isVerdict : verdict? tree follower head candidate = some resolution) :
    resolution.added.getLast? = some candidate ∧
      (resolution.kept = [] → resolution.added.length ≤ follower.backlog) := by
  have contains := offers.contains
  have length := BlockTree.length_path contains
  have positive := offers.positive
  have isLast {count : Nat} (within : count ≤ candidate.number) :
      ((tree.path candidate).drop count).getLast? = some candidate := by
    rw [List.getLast?_drop, if_neg (by omega), BlockTree.getLast?_path contains]
  have ahead : ((tree.path candidate).rtake follower.backlog).getLast? = some candidate ∧
      (([] : List Block) = [] →
        ((tree.path candidate).rtake follower.backlog).length ≤ follower.backlog) := by
    refine ⟨isLast (by omega), fun _ => ?_⟩
    rw [List.rtake, List.length_drop]
    omega
  rw [verdict?] at isVerdict
  cases found : tree.nearest? follower.window.blocks candidate with
  | none =>
      simp only [found] at isVerdict
      split at isVerdict
      · cases isVerdict
        exact ahead
      · contradiction
  | some base =>
      have lt := offers.number_lt found
      have within := (BlockTree.nearest?_eq_some contains found).2.1
      have nonempty (added : List Block) :
          (Resolution.behind base follower.window added).kept ≠ [] := by
        intro isEmpty
        have isBase := (offers.split?_hash within added).2.2
        rw [isEmpty] at isBase
        cases isBase
      simp only [found] at isVerdict
      split at isVerdict
      · cases isVerdict
        exact ⟨rfl, fun isEmpty => absurd isEmpty (nonempty _)⟩
      · split at isVerdict
        · cases isVerdict
          exact ahead
        · split at isVerdict
          · cases isVerdict
            exact ⟨isLast lt, fun isEmpty => absurd isEmpty (nonempty _)⟩
          · contradiction

end Offers

/-- A candidate that says nothing new is answered at once. -/
theorem run_reconcile_of_stale (stale : follower.isStale candidate = true)
    (surroundings : Surroundings Follower ω) (world : ω) :
    (reconcile candidate).run surroundings follower world = (.value none, follower, world) := by
  change (if follower.isStale candidate then return none else _ : Routine Follower _).run
    surroundings follower world = _
  rw [if_pos stale]
  rfl

/-- A new candidate is taken in or refused as the tree says. Where it is taken in, it is the
head from then on, and says nothing new any more. -/
theorem reconcile_verdict {surroundings : Surroundings Follower ω} (world : ω)
    (follows : surroundings.Follows tree.serving)
    (offers : Offers tree follower head candidate) :
    let ended := (reconcile candidate).run surroundings follower world
    match verdict? tree follower head candidate with
    | some resolution =>
        Takes follower resolution ended.1 ended.2.1 ∧
        (resolution.kept = [] → ended.2.1.window.blocks = resolution.added) ∧
        ended.2.1.window.head? = some candidate ∧
        ∀ {other : Type} (others : Surroundings Follower other) (later : other),
          (reconcile candidate).run others ended.2.1 later = (.value none, ended.2.1, later)
    | none => Refuses tree follower candidate ended.1 ended.2.1 := by
  intro ended
  have outcome := offers.keeps_reconcile.ends (Routine.ends_run follows _ _ world)
  cases isVerdict : verdict? tree follower head candidate with
  | none =>
      rw [isVerdict] at outcome
      exact outcome
  | some resolution =>
      rw [isVerdict] at outcome
      rcases offers.verdict?_shape isVerdict with ⟨isLast, bounded⟩
      have positive := offers.positive
      have blocks : ended.2.1.window.blocks =
          (resolution.kept ++ resolution.added).rtake follower.backlog := by
        rw [outcome.2]
      have isHead : ended.2.1.window.head? = some candidate := by
        have last : (resolution.kept ++ resolution.added).getLast? = some candidate := by
          rw [List.getLast?_append, isLast, Option.some_or]
        have nonempty := List.length_pos_of_mem (List.mem_of_getLast? last)
        rw [Window.head?, blocks, List.rtake, List.getLast?_drop, if_neg (by omega), last]
      refine ⟨outcome, fun isEmpty => ?_, isHead, fun others later => ?_⟩
      · rw [blocks, isEmpty, List.nil_append, Window.rtake_of_length_le (bounded isEmpty)]
      · apply run_reconcile_of_stale
        rw [isStale_iff]
        exact .inl ⟨candidate, Window.mem_of_head? isHead, rfl⟩

/-- A branch that leaves the window at its oldest block, one that leaves it below that block,
and a head that is too far ahead. -/
theorem reconcile_verdict_at_fork :
    let node : Surroundings Follower Nat := .scripted Fork.tree fun _ => Fork.root
    let whole := filledWith [Fork.root, Fork.left 1, Fork.left 2]
    let short := filledWith [Fork.left 1, Fork.left 2]
    let single := filledWith [Fork.root]
    let repaired := (reconcile (Fork.right 3)).run node whole 0
    let refused := (reconcile (Fork.right 3)).run node short 0
    let begun := (reconcile (Fork.left 3)).run node single 0
    repaired.1 = .value (some
      ⟨[Fork.right 1, Fork.right 2, Fork.right 3], [Fork.left 1, Fork.left 2]⟩) ∧
    (reconcile (Fork.right 3)).run node repaired.2.1 0 = (.value none, repaired.2.1, 0) ∧
    refused.1 = .error (.reorgTooDeep 3 2) ∧ refused.2.1 = short ∧
    begun.1 = .value (some ⟨[Fork.left 3], []⟩) ∧ begun.2.1.window.blocks = [Fork.left 3] := by
  intro node whole short single repaired refused begun
  have follows : node.Follows Fork.tree.serving := scripted_follows_serving Fork.tree _
  have sound {blocks : List Block} (linked : Block.Linked blocks) (positive : 0 < blocks.length) :
      (filledWith blocks).window.IsSound (filledWith blocks).backlog :=
    ⟨linked, (Nat.max_eq_left positive).symm, Nat.le_max_left _ _⟩
  have wholeOffers : Offers Fork.tree whole (Fork.left 2) (Fork.right 3) :=
    ⟨by decide +kernel, sound (by decide +kernel) (by decide), by decide, by decide +kernel,
      by decide +kernel, by decide +kernel, by decide +kernel⟩
  have shortOffers : Offers Fork.tree short (Fork.left 2) (Fork.right 3) :=
    ⟨by decide +kernel, sound (by decide +kernel) (by decide), by decide, by decide +kernel,
      by decide +kernel, by decide +kernel, by decide +kernel⟩
  have singleOffers : Offers Fork.tree single Fork.root (Fork.left 3) :=
    ⟨by decide +kernel, sound (by decide +kernel) (by decide), by decide, by decide +kernel,
      by decide +kernel, by decide +kernel, by decide +kernel⟩
  have wholeVerdict : verdict? Fork.tree whole (Fork.left 2) (Fork.right 3) = some
      ⟨[Fork.root], [Fork.left 1, Fork.left 2], [Fork.right 1, Fork.right 2, Fork.right 3]⟩ := by
    decide +kernel
  have shortVerdict : verdict? Fork.tree short (Fork.left 2) (Fork.right 3) = none := by
    decide +kernel
  have singleVerdict : verdict? Fork.tree single Fork.root (Fork.left 3) =
      some ⟨[], [], [Fork.left 3]⟩ := by
    decide +kernel
  have takes := reconcile_verdict 0 follows wholeOffers
  have refuses := reconcile_verdict 0 follows shortOffers
  have begins := reconcile_verdict 0 follows singleOffers
  rw [wholeVerdict] at takes
  rw [shortVerdict] at refuses
  rw [singleVerdict] at begins
  exact ⟨takes.1.1, takes.2.2.2 node 0, refuses.2.1 (by decide), refuses.1, begins.1.1,
    begins.2.1 rfl⟩

end Follower

end ReorgSync
