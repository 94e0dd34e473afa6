import ReorgSync.Proofs.Follower

namespace ReorgSync

/-! What a session finds out from an honest node and from its follower. None of
this touches what is stored. -/

namespace Movement

/-- The conduct of what surrounds a session, with an honest node. -/
def conduct (movement : Movement ω) (tree : BlockTree) : Conduct (Session ε) ω :=
  tree.conduct movement.headOf (movement.besideSession tree)

/-- What may happen while nothing is stored. -/
def besideStore (movement : Movement ω) (tree : BlockTree) :
    Session ε → ω → Session ε → ω → Prop :=
  fun before early after late =>
    (after.entry = before.entry ∧ after.events = before.events) ∧
      movement.besideFollower tree before.follower early after.follower late

variable {movement : Movement ω} {tree : BlockTree}

theorem besideStore_of_besideSession {before after : Session ε} {early late : ω}
    (passed : movement.besideSession tree before early after late) :
    movement.besideStore tree before early after late := by
  refine ⟨?_, passed.2⟩
  rw [passed.1]
  exact ⟨rfl, rfl⟩

instance : IsPassing (movement.besideStore (ε := ε) tree) where
  refl session world := besideStore_of_besideSession (IsPassing.refl session world)
  trans earlier later :=
    ⟨⟨later.1.1.trans earlier.1.1, later.1.2.trans earlier.1.2⟩,
      IsPassing.trans earlier.2 later.2⟩

instance : (movement.conduct (ε := ε) tree).Within (movement.besideStore tree) where
  asked accepted := besideStore_of_besideSession accepted.1

instance : (movement.conduct (ε := ε) tree).GivesUp :=
  inferInstanceAs (tree.conduct movement.headOf (movement.besideSession tree)).GivesUp

theorem isHonest_of_besideStore {before after : Session ε} {early late : ω}
    (passed : movement.besideStore tree before early after late)
    (honest : before.follower.IsHonest tree) : after.follower.IsHonest tree :=
  passed.2.1.honest honest

end Movement

namespace Session

open Routine (Quietly)

/-- Work of a session that stores nothing, and what it has found in the end. -/
abbrev StoresNothing (tree : BlockTree) (movement : Movement ω) (found : α → Prop)
    (routine : Routine (Session ε) α) (session : Session ε) (world : ω) : Prop :=
  routine.Quietly (movement.conduct tree) (movement.besideStore tree)
    (fun value _ _ => found value) session world

variable {ε : Type} {tree : BlockTree} {movement : Movement ω} {session : Session ε} {world : ω}

/-! ## Calls to the node -/

theorem quietly_call (call : Node.Call) :
    (Session.call call).Quietly (movement.conduct tree) (movement.besideStore tree)
      (fun value _ later => tree.Contains (movement.headOf later) ∧
        tree.Truthful (movement.headOf later) call (.ok value)) session world := by
  apply Quietly.guarded
  intro after later _
  exact Quietly.widen (tree.quietly_node call after later)
    fun _ _ => Movement.besideStore_of_besideSession

theorem quietly_blockOr {name : String} {found : Option Block}
    {holds : Block → Session ε → ω → Prop}
    (sound : ∀ block, found = some block → holds block session world) :
    (blockOr name found).Quietly (movement.conduct tree) (movement.besideStore tree) holds
      session world := by
  cases found with
  | none => exact .fail
  | some block => exact .done (sound block rfl)

theorem quietly_blockAt (height : Nat) :
    (blockAt height).Quietly (movement.conduct tree) (movement.besideStore tree)
      (fun block _ later => tree.Contains (movement.headOf later) ∧
        (tree.path (movement.headOf later))[height]? = some block) session world := by
  apply Quietly.andThen (quietly_call _)
  intro found after later _ holds
  exact quietly_blockOr fun block same => ⟨holds.1, holds.2 block same⟩

theorem storesNothing_blockAt (height : Nat) :
    StoresNothing tree movement (fun block => tree.Contains block ∧ block.number = height)
      (blockAt height) session world := by
  apply (quietly_blockAt height).mono
  rintro block _ _ _ ⟨contains, found⟩
  have onPath := BlockTree.path_of_getElem? contains found
  exact ⟨onPath.1, onPath.2.1⟩

theorem storesNothing_height :
    StoresNothing tree movement (fun height => height + 1 < Word.size 64) (call .height) session
      world := by
  apply (quietly_call .height).mono
  rintro height _ later _ ⟨contains, isHeight⟩
  rw [show height = (movement.headOf later).number from isHeight]
  exact tree.height_lt contains

theorem storesNothing_blockWithHash (hash : String) :
    StoresNothing tree movement (fun block => tree.block? hash = some block)
      (blockWithHash hash) session world := by
  apply Quietly.andThen (quietly_call _)
  intro found after later _ holds
  exact quietly_blockOr fun block same => holds.2 block same

/-- The logs of a block may be asked for several times, and are the same each
time. -/
theorem storesNothing_blockLogs (config : Config) (block : Block) :
    StoresNothing tree movement (fun logs => logs = tree.logsOf config.filter block)
      (blockLogs config block.hash) session world := by
  rw [blockLogs]
  generalize max config.retryAttempts 1 - 1 = attempts
  induction attempts generalizing session world with
  | zero =>
      apply (quietly_call (.logs ⟨config.filter, .blockHash block.hash⟩)).mono
      exact fun _ _ _ _ holds => holds.2
  | succ attempts induction =>
      apply Quietly.andThen (.guarded_ask)
      intro reply after later _ answered
      rcases answered with ⟨before, early, -, accepted⟩
      rcases reply with _ | _ | logs
      · exact .fail
      · exact .andThen (.sleep) fun _ after later _ _ => induction
      · exact .done accepted.2.2

theorem storesNothing_logsOfBlocks (config : Config) (blocks : List Block) :
    StoresNothing tree movement (fun logs => logs = tree.logsAlong config.filter blocks)
      (logsOfBlocks config blocks) session world := by
  induction blocks generalizing session world with
  | nil => exact .done rfl
  | cons block rest induction =>
      apply Quietly.andThen (storesNothing_blockLogs config block)
      intro _ after later _ same
      subst same
      apply Quietly.andThen induction
      intro _ after later _ same
      subst same
      exact .done (BlockTree.logsAlong_cons rest).symm

/-- A range is answered with logs of the heights that are asked for. -/
theorem storesNothing_range (filter : Filter) (first final : Nat) :
    StoresNothing tree movement (fun reply => ∀ logs, reply = some (.ok logs) →
      ∀ log ∈ logs, first ≤ log.blockNumber)
      (Routine.ask (.cancelableNode (.logs ⟨filter, .range first final⟩)) .done).guarded
        session world := by
  apply Quietly.guarded_ask.mono
  rintro _ _ _ _ ⟨before, early, -, accepted⟩ logs rfl log member
  rw [show logs = _ from accepted.2.2] at member
  exact (BlockTree.blockNumber_of_mem_range accepted.2.1 member).1

theorem storesNothing_isSettled (state : Backfill) :
    StoresNothing tree movement (fun _ => True) (isSettled state) session world := by
  rw [isSettled]
  split
  · apply Quietly.andThen (quietly_call _)
    intro found after later _ _
    cases found with
    | none => exact .done trivial
    | some block => exact .done trivial
  · exact .done trivial

/-! ## The followed head -/

theorem storesNothing_inWindow {look : Window → α} (found : α → Prop)
    (honest : session.follower.IsHonest tree)
    (sound : ∀ follower : Follower, follower.IsHonest tree → found (look follower.window)) :
    StoresNothing tree movement found (inWindow look) session world := by
  apply Quietly.exclusively (fun _ _ _ _ _ _ holds => holds)
  intro after later passed
  exact Quietly.get (sound after.follower (Movement.isHonest_of_besideStore passed honest))

theorem storesNothing_followedHead? (honest : session.follower.IsHonest tree) :
    StoresNothing tree movement (fun found => ∀ head, found = some head → tree.Contains head)
      followedHead? session world :=
  storesNothing_inWindow _ honest fun _ honest _ isHead =>
    honest.window.2 _ (Window.mem_of_head? isHead)

theorem storesNothing_withFollower {routine : Routine Follower α}
    (quietly : ∀ follower : Follower, follower.IsHonest tree → ∀ late : ω,
      routine.Quietly (tree.conduct movement.headOf (movement.besideFollower tree))
        (movement.besideFollower tree) (fun _ _ _ => True) follower late)
    (honest : session.follower.IsHonest tree) :
    StoresNothing tree movement (fun _ => True) (withFollower routine).guardedExclusively
      session world := by
  refine .guardedExclusively
    (fun _ _ _ _ _ _ holds => holds) fun after later passed => ?_
  exact Quietly.widen (quietly_withFollower
    (quietly after.follower (Movement.isHonest_of_besideStore passed honest) later))
    fun _ _ => Movement.besideStore_of_besideSession

theorem storesNothing_refreshHead (honest : session.follower.IsHonest tree) :
    StoresNothing tree movement tree.Contains refreshHead session world := by
  apply Quietly.andThen (quietly_call _)
  intro found after later passed holds
  have honest := Movement.isHonest_of_besideStore passed honest
  have isHead : StoresNothing tree movement tree.Contains (blockOr "latest" found) after later := by
    apply quietly_blockOr
    intro latest same
    rw [holds.2 latest same]
    exact holds.1
  apply Quietly.andThen isHead
  intro latest after later passed contains
  have honest := Movement.isHonest_of_besideStore passed honest
  apply Quietly.get_andThen
  apply Quietly.andThen (storesNothing_followedHead? honest)
  intro head? after later passed _
  have honest := Movement.isHonest_of_besideStore passed honest
  have ends : ∀ (after : Session ε) (later : ω), after.follower.IsHonest tree →
      StoresNothing tree movement tree.Contains (followedHead? >>= blockOr "latest")
        after later := by
    intro after later honest
    apply Quietly.andThen (storesNothing_followedHead? honest)
    exact fun _ _ _ _ sound => quietly_blockOr fun head same => sound head same
  have filled : StoresNothing tree movement tree.Contains
      ((withFollower Follower.fill).guardedExclusively >>= fun _ =>
        followedHead? >>= blockOr "latest") after later := by
    apply Quietly.andThen (storesNothing_withFollower (fun follower _ late =>
      Follower.quietly_fill follower late) honest)
    exact fun _ after later passed _ =>
      ends after later (Movement.isHonest_of_besideStore passed honest)
  have reconciled : StoresNothing tree movement tree.Contains
      ((withFollower (Follower.reconcile latest)).guardedExclusively >>= fun _ =>
        followedHead? >>= blockOr "latest") after later := by
    apply Quietly.andThen (storesNothing_withFollower (fun follower honest late =>
      Follower.quietly_reconcile contains honest late) honest)
    exact fun _ after later passed _ =>
      ends after later (Movement.isHonest_of_besideStore passed honest)
  cases head? with
  | none => exact filled
  | some head =>
      dsimp only
      split
      · exact filled
      · exact reconciled

/-! ## Walks towards the root -/

theorem storesNothing_parentOf {block : Block} (contains : tree.Contains block)
    (honest : session.follower.IsHonest tree) :
    StoresNothing tree movement (fun parent => tree.Contains parent ∧ block.Extends parent)
      (parentOf block) session world := by
  have isParent : ∀ parent, tree.block? block.parentHash = some parent →
      tree.Contains parent ∧ block.Extends parent := fun parent found =>
    ⟨BlockTree.contains_of_block? found, BlockTree.extends_of_block? contains found⟩
  have known : ∀ follower : Follower, follower.IsHonest tree → ∀ parent,
      follower.window.find? block.parentHash = some parent →
        tree.block? block.parentHash = some parent := by
    intro follower honest parent same
    rcases Window.find?_eq_some same with ⟨member, hash⟩
    rw [← hash]
    exact honest.window.2 parent member
  apply Quietly.andThen (storesNothing_inWindow (fun inWindow => ∀ parent,
    inWindow = some parent → tree.block? block.parentHash = some parent) honest known)
  intro inWindow after later _ sound
  cases inWindow with
  | some parent => exact .done (isParent parent (sound parent rfl))
  | none => exact (storesNothing_blockWithHash _).mono fun parent _ _ _ => isParent parent

/-- The blocks that a descent collects are the run behind a height that ends at
its head. -/
theorem storesNothing_descend (turns origin : Nat) {head : Block} (contains : tree.Contains head)
    (above : origin ≤ head.number) (honest : session.follower.IsHonest tree) :
    StoresNothing tree movement (fun run => tree.IsRun (run.1 :: run.2) ∧
      (run.1 :: run.2).getLast? = some head ∧ run.1.number = origin)
      (descend turns origin head) session world := by
  refine Quietly.iterate (fun run after _ => after.follower.IsHonest tree ∧
    tree.IsRun (run.1 :: run.2) ∧ (run.1 :: run.2).getLast? = some head ∧
      origin ≤ run.1.number) ?_ turns (head, [])
    ⟨honest, BlockTree.isRun_singleton contains, rfl, above⟩
  intro run session world holds
  rcases run with ⟨oldest, newer⟩
  rcases holds with ⟨honest, isRun, isLast, reached⟩
  rw [descendStep]
  split
  case isFalse arrived =>
    exact .done ⟨isRun, isLast, by omega⟩
  case isTrue higher =>
    have below : origin < oldest.number := higher
    apply Quietly.andThen .checkCanceled
    intro _ after later passed _
    have honest := Movement.isHonest_of_besideStore passed honest
    have oldestContained := isRun.2 oldest List.mem_cons_self
    apply Quietly.andThen (storesNothing_parentOf oldestContained honest)
    intro parent after later passed holds
    rcases holds with ⟨contained, extending⟩
    have honest := Movement.isHonest_of_besideStore passed honest
    have next := extending.1
    exact .done ⟨honest, isRun.cons contained extending, by simpa using isLast, by
      show origin ≤ parent.number
      omega⟩

/-- Whatever the canonical branch is meanwhile, the ancestor that is found lies on the stored
one, and on the one that the walk began at. -/
theorem storesNothing_commonAncestor {last top stored canonical : Block} (backlog steps : Nat)
    (contains : tree.Contains last) (onPath : stored ∈ tree.path last)
    (containsTop : tree.Contains top) (onTop : canonical ∈ tree.path top) :
    StoresNothing tree movement
      (fun ancestor => ancestor ∈ tree.path last ∧ ancestor ∈ tree.path top)
      (commonAncestor last backlog steps stored canonical) session world := by
  have meet : ∀ {stored canonical}, stored ∈ tree.path last → canonical ∈ tree.path top →
      stored.hash = canonical.hash → canonical ∈ tree.path last ∧ canonical ∈ tree.path top := by
    intro stored canonical onPath onTop same
    have isOne : stored = canonical :=
      BlockTree.eq_of_hash_eq (BlockTree.contains_of_mem_path contains onPath)
        (BlockTree.contains_of_mem_path containsTop onTop) same
    exact ⟨isOne ▸ onPath, onTop⟩
  have parent : ∀ {child last parent}, tree.Contains last → child ∈ tree.path last →
      tree.block? child.parentHash = some parent → parent ∈ tree.path last := by
    intro child last parent contains onPath found
    exact BlockTree.parent_mem_path contains onPath (BlockTree.contains_of_block? found)
      (BlockTree.extends_of_block? (BlockTree.contains_of_mem_path contains onPath) found)
  induction steps generalizing stored canonical session world with
  | zero =>
      rw [commonAncestor]
      split
      case isTrue same => exact .done (meet onPath onTop same)
      case isFalse => exact .fail
  | succ steps induction =>
      rw [commonAncestor]
      split
      case isTrue same => exact .done (meet onPath onTop same)
      case isFalse =>
        split
        case isTrue => exact .fail
        case isFalse above =>
          apply Quietly.andThen (storesNothing_blockWithHash _)
          intro storedParent after later _ found
          apply Quietly.andThen (storesNothing_blockWithHash _)
          intro canonicalParent after later _ foundToo
          exact induction (parent contains onPath found) (parent containsTop onTop foundToo)

/-! ## Storing -/

omit tree in
/-- What follows something that may be read. -/
theorem keeps_read [EntryStore ε] {conduct : Conduct (Session ε) ω}
    {ends : Outcome β → Session ε → ω → Prop} {read : ε → Except SyncError α}
    {second : α → Routine (Session ε) β}
    (continues : ∀ value, read session.entry = .ok value →
      (second value).Keeps conduct (fun _ _ => True) ends session world)
    (fails : ∀ error, ends (.error error) session world) :
    (readEntry read >>= second).Keeps conduct (fun _ _ => True) ends session world := by
  change (Routine.ofExcept (read session.entry) >>= second).Keeps _ _ _ session world
  cases found : read session.entry with
  | error error => exact fails error
  | ok value => exact continues value found

omit tree in
/-- What follows an event that may be stored. -/
theorem keeps_stored [EntryStore ε] {event : Event} {second : Unit → Routine (Session ε) α}
    {conduct : Conduct (Session ε) ω} {ends : Outcome α → Session ε → ω → Prop}
    (continues : ∀ after : Session ε, EntryStore.apply session.entry event = .ok after.entry →
      (second ()).Keeps conduct (fun _ _ => True) ends after world)
    (fails : ∀ error, ends (.error error) session world) :
    (Session.apply event >>= second).Keeps conduct (fun _ _ => True) ends session world := by
  rw [Session.apply, changeEntry, bind_assoc, bind_assoc]
  refine keeps_read (fun entry stored => ?_) fails
  exact ⟨trivial, trivial, continues { session with entry, events := _ } stored⟩

omit tree in
theorem keeps_readEntry {conduct : Conduct (Session Entry) ω}
    {invariant : Session Entry → ω → Prop} {ends : Outcome β → Session Entry → ω → Prop}
    {session : Session Entry} {read : Entry → Except SyncError α} {value : α}
    {second : α → Routine (Session Entry) β} (found : read session.entry = .ok value)
    (continues : (second value).Keeps conduct invariant ends session world) :
    (readEntry read >>= second).Keeps conduct invariant ends session world := by
  show Routine.Keeps _ _ _ (Routine.ofExcept (read session.entry) >>= second) session world
  rw [found]
  exact continues

omit tree in
/-- An event is published after it was applied, and nothing happens between the
two. -/
theorem keeps_apply {conduct : Conduct (Session Entry) ω} {invariant : Session Entry → ω → Prop}
    {ends : Outcome α → Session Entry → ω → Prop} {session : Session Entry} {event : Event}
    {stored : Entry} {second : Unit → Routine (Session Entry) α}
    (applied : session.entry.apply event = .ok stored)
    (between : invariant { session with entry := stored } world)
    (behind : invariant
      { session with entry := stored, events := session.events.publish event } world)
    (continues : (second ()).Keeps conduct invariant ends
      { session with entry := stored, events := session.events.publish event } world) :
    (Session.apply event >>= second).Keeps conduct invariant ends session world := by
  rw [Session.apply, changeEntry, bind_assoc, bind_assoc]
  exact keeps_readEntry ((Entry.apply_eq session.entry event).trans applied)
    ⟨between, behind, continues⟩

/-- To enter a phase takes no time. -/
theorem quietly_enter (phase : Phase) :
    (enter phase).Quietly (movement.conduct tree) (movement.besideStore (ε := ε) tree)
      (fun _ _ later => later = world) session world := by
  have small : movement.besideStore tree session world { session with phase } world :=
    ⟨⟨rfl, rfl⟩, IsPassing.refl session.follower world⟩
  apply Quietly.mono (.modify small)
  exact fun _ _ _ _ same => same.2

end Session

end ReorgSync
