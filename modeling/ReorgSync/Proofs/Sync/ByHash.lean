import ReorgSync.Proofs.Sync.Calls
import ReorgSync.Proofs.Tree.Node

namespace ReorgSync

/-! Work that asks for blocks and logs by their hashes. Whatever becomes of the
canonical chain meanwhile, an entry that matched the tree matches it afterwards,
and at most one event is stored. -/

/-- A session whose entry matches the tree, and that only saw blocks of it. -/
structure Session.IsSound (session : Session Entry) (tree : BlockTree) (filter : Filter) :
    Prop where
  entry : session.entry.Matches tree filter
  follower : session.follower.IsHonest tree

/-- One event was applied and published, and now the entry ends at a block and
matches. -/
structure Session.Stores (tree : BlockTree) (filter : Filter) (before after : Session Entry)
    (last : Block) : Prop where
  event : ∃ event, before.entry.apply event = .ok after.entry ∧
    after.events = before.events.publish event
  ends : after.entry.lastBlock = some last
  contains : tree.Contains last
  logs : after.entry.logs = tree.logsAlong filter (tree.path last)

/-- What may happen to a session as long as its entry stays as good as it was. -/
def Movement.soundly (movement : Movement ω) (tree : BlockTree) (filter : Filter) :
    Session Entry → ω → Session Entry → ω → Prop :=
  fun before early after late =>
    (before.entry.Matches tree filter → after.entry.Matches tree filter) ∧
      movement.besideFollower tree before.follower early after.follower late

theorem Movement.soundly_of_besideStore {movement : Movement ω} {tree : BlockTree}
    {filter : Filter} {before after : Session Entry} {early late : ω}
    (passed : movement.besideStore tree before early after late) :
    movement.soundly tree filter before early after late := by
  refine ⟨fun entryMatches => ?_, passed.2⟩
  rw [passed.1.1]
  exact entryMatches

instance {movement : Movement ω} {tree : BlockTree} {filter : Filter} :
    IsPassing (movement.soundly tree filter) where
  refl session world := Movement.soundly_of_besideStore (IsPassing.refl session world)
  trans earlier later :=
    ⟨fun entryMatches => later.1 (earlier.1 entryMatches), IsPassing.trans earlier.2 later.2⟩

theorem Session.isSound_endingAt {tree : BlockTree} {config : Config} {last : Block}
    (contains : tree.Contains last) :
    (Session.endingAt tree config last).IsSound tree config.filter where
  entry := (Entry.matches_of_lastBlock rfl).mpr ⟨contains, rfl⟩
  follower := Follower.isHonest_make tree _ _ none

namespace Session

open Routine (Quietly)

variable {tree : BlockTree} {filter : Filter} {movement : Movement ω}
  {session before after : Session Entry} {world early later : ω} {last : Block}

theorem Stores.entryMatches (stores : Stores tree filter before after last) :
    after.entry.Matches tree filter :=
  (Entry.matches_of_lastBlock stores.ends).mpr ⟨stores.contains, stores.logs⟩

theorem IsSound.besideStore (sound : before.IsSound tree filter)
    (passed : movement.besideStore tree before early after later) : after.IsSound tree filter where
  entry := by
    rw [passed.1.1]
    exact sound.entry
  follower := Movement.isHonest_of_besideStore passed sound.follower

/-- An event that brings the entry to a block, stored after nothing was stored. -/
theorem keeps_apply_stores {conduct : Conduct (Session Entry) ω}
    {invariant : Session Entry → ω → Prop} {ends : Outcome α → Session Entry → ω → Prop}
    {event : Event} {stored : Entry} {second : Unit → Routine (Session Entry) α}
    (same : session.entry = before.entry ∧ session.events = before.events)
    (applied : before.entry.apply event = .ok stored) (isLast : stored.lastBlock = some last)
    (contains : tree.Contains last) (logs : stored.logs = tree.logsAlong filter (tree.path last))
    (invariant_of : ∀ after : Session Entry, after.entry.Matches tree filter →
      after.follower = session.follower → invariant after world)
    (continues : ∀ after, Stores tree filter before after last →
      after.follower = session.follower →
        (second ()).Keeps conduct invariant ends after world) :
    (Session.apply event >>= second).Keeps conduct invariant ends session world := by
  have entryMatches : stored.Matches tree filter :=
    (Entry.matches_of_lastBlock isLast).mpr ⟨contains, logs⟩
  have appliedNow : session.entry.apply event = .ok stored := by
    rw [same.1]
    exact applied
  apply keeps_apply appliedNow
  · exact invariant_of _ entryMatches rfl
  · exact invariant_of _ entryMatches rfl
  · refine continues _ ⟨⟨event, applied, ?_⟩, isLast, contains, logs⟩ rfl
    rw [← same.2]

/-! ## The stored position -/

/-- Work that keeps an entry matching and is followed from its start: it ends with
a value as stated, or it stored nothing. -/
abbrev StaysSound (tree : BlockTree) (filter : Filter) (movement : Movement ω)
    (before : Session Entry) (early : ω) (met : α → Session Entry → ω → Prop)
    (routine : Routine (Session Entry) α) (session : Session Entry) (world : ω) : Prop :=
  routine.Keeps (movement.conduct tree) (movement.soundly tree filter before early)
    (Outcome.Meets met (movement.besideStore tree before early)) session world

theorem staysSound_andThen {first : Routine (Session Entry) α}
    {second : α → Routine (Session Entry) β} {found : α → Session Entry → ω → Prop}
    {met : β → Session Entry → ω → Prop}
    (passed : movement.besideStore tree before early session world)
    (quietly : first.Quietly (movement.conduct tree) (movement.besideStore tree) found session
      world)
    (continues : ∀ value after later, movement.besideStore tree before early after later →
      found value after later →
        StaysSound tree filter movement before early met (second value) after later) :
    StaysSound tree filter movement before early met (first >>= second) session world :=
  quietly.andKeeps (fun _ _ => Movement.soundly_of_besideStore)
    (fun _ _ since => since) passed continues

/-- What was reached when a block is answered that the entry ends at: the block
that it ended at before, or one that was stored. -/
def Reached (tree : BlockTree) (filter : Filter) (movement : Movement ω)
    (before : Session Entry) (early : ω) (last : Option Block) (reached : Block)
    (after : Session Entry) (later : ω) : Prop :=
  (movement.besideStore tree before early after later ∧ last = some reached) ∨
    (Stores tree filter before after reached ∧
      movement.besideFollower tree before.follower early after.follower later)

theorem keeps_reconcilePosition (sound : session.IsSound tree filter)
    (ends : session.entry.lastBlock = some last) :
    StaysSound tree filter movement session world
      (Reached tree filter movement session world (some last)) (reconcilePosition last)
      session world := by
  have matched := (Entry.matches_of_lastBlock ends).mp sound.entry
  refine staysSound_andThen (IsPassing.refl session world) (quietly_call _) ?_
  intro head after later passed _
  split
  case isTrue => exact passed
  case isFalse =>
    refine staysSound_andThen passed (quietly_blockAt _) ?_
    intro canonical after later passed holds
    rcases holds with ⟨headContained, found⟩
    split
    case isTrue => exact .inl ⟨passed, rfl⟩
    case isFalse =>
      have canonicalContained := (BlockTree.path_of_getElem? headContained found).1
      refine .get_andThen (staysSound_andThen passed (storesNothing_commonAncestor _ _
        matched.1 (BlockTree.self_mem_path matched.1) canonicalContained
        (BlockTree.self_mem_path canonicalContained)) ?_)
      rintro ancestor after later passed ⟨onPath, -⟩
      have path := BlockTree.path_of_mem_path matched.1 onPath
      have cut := rollbackPoint_of_matches (ancestor.number + 1) matched.1 matched.2
      rw [← path, ← passed.1.1] at cut
      refine .computes (.sum _ _) ?_ fun _ _ => passed
      refine keeps_readEntry cut ?_
      have split := (tree.logsAlong_take_append_drop filter (ancestor.number + 1)
        (tree.path last)).symm
      rw [← matched.2, ← path] at split
      have applied := Entry.apply_cut []
        (tree.logsAlong filter ((tree.path last).drop (ancestor.number + 1))) ancestor split
      apply keeps_apply_stores passed.1 applied rfl
        (BlockTree.contains_of_mem_path matched.1 onPath) (List.append_nil _)
      · intro stored entryMatches follower
        refine ⟨fun _ => entryMatches, ?_⟩
        rw [follower]
        exact passed.2
      · intro stored stores follower
        refine .inr ⟨stores, ?_⟩
        rw [follower]
        exact passed.2

/-! ## The hot zone -/

/-- Blocks behind those that an entry ends at continue its logs. -/
theorem logs_append_of_run {entry : Entry} {last? : Option Block} {oldest head : Block}
    {newer : List Block} (entryMatches : entry.Matches tree filter)
    (ends : entry.lastBlock = last?)
    (isRun : tree.IsRun (oldest :: newer)) (isLast : (oldest :: newer).getLast? = some head)
    (number : oldest.number = last?.elim 0 (·.number + 1))
    (linked : last?.all fun last => oldest.parentHash == last.hash) :
    entry.logs ++ tree.logsAlong filter (oldest :: newer) =
      tree.logsAlong filter (tree.path head) := by
  cases last? with
  | none =>
      rw [(Entry.matches_of_no_lastBlock ends).mp entryMatches, List.nil_append,
        isRun.path_getLast?_of_zero number isLast]
  | some last =>
      rcases (Entry.matches_of_lastBlock ends).mp entryMatches with ⟨contains, logs⟩
      have extending : ∀ first ∈ (oldest :: newer).head?, first.Extends last := by
        intro _ same
        cases same
        exact ⟨number, by simpa using linked⟩
      rw [logs, isRun.path_getLast? contains extending isLast, BlockTree.logsAlong_append]

theorem keeps_hotZone {config : Config} {last? : Option Block} (turns : Nat)
    (sound : session.IsSound tree config.filter) (ends : session.entry.lastBlock = last?) :
    StaysSound tree config.filter movement session world
      (fun reached after later => reached.elim
        (movement.besideStore tree session world after later) fun block =>
          Reached tree config.filter movement session world last? block after later)
      (hotZone config turns (last?.elim 0 (·.number + 1)) last?) session world := by
  apply staysSound_andThen (IsPassing.refl session world)
    (storesNothing_refreshHead sound.follower)
  intro head after later passed contains
  split
  case isTrue =>
    cases last? with
    | none => exact passed
    | some last => exact .inl ⟨passed, rfl⟩
  case isFalse above =>
    apply staysSound_andThen passed (quietly_enter .hotZone)
    intro _ after later passed _
    apply staysSound_andThen passed (storesNothing_descend turns _ contains
      (Nat.le_of_not_lt above) (sound.besideStore passed).follower)
    intro run after later passed holds
    rcases run with ⟨oldest, newer⟩
    rcases holds with ⟨isRun, isLast, number⟩
    dsimp only
    split
    case isFalse => exact passed
    case isTrue linked =>
      apply staysSound_andThen passed (storesNothing_logsOfBlocks config _)
      intro _ after later passed same
      subst same
      have logs := logs_append_of_run sound.entry ends isRun isLast number linked
      apply keeps_apply_stores passed.1 (Entry.apply_append _ _ head) rfl contains logs
      · intro stored entryMatches follower
        refine ⟨fun _ => entryMatches, ?_⟩
        rw [follower]
        exact passed.2
      · intro stored stores follower
        refine .inr ⟨stores, ?_⟩
        rw [follower]
        exact passed.2

/-! ## Deltas -/

/-- Where a delta connects to an entry that ends at `last`: behind that block, or
in front of the oldest block that it displaces. -/
inductive Rests (tree : BlockTree) (filter : Filter) (last : Block) (delta : Delta) : Base → Prop
  | behind (apart : last ∉ delta.removed) :
      Rests tree filter last delta { number := last.number, hash := last.hash }
  | below {first : Block} (isFirst : delta.removed.head? = some first)
      (onPath : first ∈ tree.path last) :
      Rests tree filter last delta {
        number := first.number - 1
        hash := first.parentHash
        truncateTo := some (tree.logsAlong filter ((tree.path last).take first.number)).length
        removed := tree.logsAlong filter ((tree.path last).drop first.number) }

theorem keeps_baseOf {conduct : Conduct (Session Entry) ω}
    {invariant : Session Entry → ω → Prop} {delta : Delta} (contains : tree.Contains last)
    (logs : session.entry.logs = tree.logsAlong filter (tree.path last))
    (removed : tree.IsRun delta.removed) :
    (baseOf last delta).Keeps conduct invariant
      (Outcome.Meets (fun base after later => (after = session ∧ later = world) ∧
        ∀ found, base = some found → Rests tree filter last delta found) fun _ _ => False)
      session world := by
  have behind : last ∉ delta.removed → ∀ found,
      some { number := last.number, hash := last.hash : Base } = some found →
        Rests tree filter last delta found := by
    intro apart _ same
    cases same
    exact .behind apart
  rw [baseOf]
  cases isRemoved : delta.removed with
  | nil =>
      rw [isRemoved] at behind
      exact ⟨⟨rfl, rfl⟩, behind List.not_mem_nil⟩
  | cons first rest =>
      rw [isRemoved] at behind removed
      dsimp only
      split
      case isTrue above =>
        refine ⟨⟨rfl, rfl⟩, behind fun member => ?_⟩
        rcases List.mem_cons.mp member with same | member
        · rw [same] at above
          exact Nat.lt_irrefl _ above
        · have := removed.1.number_lt_of_mem last member
          omega
      case isFalse =>
        split
        case isTrue isHash =>
          have onPath := BlockTree.head_mem_path_of_hash removed contains isHash
          apply keeps_readEntry (rollbackPoint_of_matches _ contains logs)
          refine ⟨⟨rfl, rfl⟩, ?_⟩
          intro _ same
          cases same
          exact .below (by rw [isRemoved]; rfl) onPath
        case isFalse isNoHash =>
          have apart : last ∉ first :: rest := fun member =>
            isNoHash (List.any_eq_true.mpr ⟨last, member, by simp⟩)
          split
          case isTrue => exact ⟨⟨rfl, rfl⟩, behind apart⟩
          case isFalse =>
            refine ⟨⟨rfl, rfl⟩, ?_⟩
            intro _ none
            cases none

/-- Blocks that connect to where a delta rests bring the entry to their last
one. -/
theorem Rests.apply {entry : Entry} {delta : Delta} {base : Base} {blocks : List Block}
    {first newest : Block} (rests : Rests tree filter last delta base)
    (removed : tree.IsRun delta.removed) (contains : tree.Contains last)
    (logs : entry.logs = tree.logsAlong filter (tree.path last)) (isRun : tree.IsRun blocks)
    (isFirst : blocks.head? = some first) (isNewest : blocks.getLast? = some newest)
    (connected : first.number = base.number + 1 ∧ first.parentHash = base.hash) :
    entry.apply { added := tree.logsAlong filter blocks, removed := base.removed,
                  truncateTo := base.truncateTo, block := newest } =
      .ok { entry with logs := tree.logsAlong filter (tree.path newest)
                       lastBlock := some newest } := by
  have firstContained : tree.Contains first := isRun.2 first (List.mem_of_head? isFirst)
  cases rests with
  | behind =>
      have extending : ∀ oldest ∈ blocks.head?, oldest.Extends last := by
        intro oldest isOldest
        rw [isFirst] at isOldest
        cases isOldest
        exact connected
      rw [isRun.path_getLast? contains extending isNewest, BlockTree.logsAlong_append, ← logs]
      rfl
  | @below displaced isDisplaced onPath =>
      have displacedContained := removed.2 displaced (List.mem_of_head? isDisplaced)
      rcases tree.exists_parent firstContained (by omega) with ⟨parent, found, number⟩
      rw [connected.2] at found
      have extending := BlockTree.extends_of_block? displacedContained found
      have contained := BlockTree.contains_of_block? found
      have behindParent : ∀ oldest ∈ blocks.head?, oldest.Extends parent := by
        intro oldest isOldest
        rw [isFirst] at isOldest
        cases isOldest
        exact ⟨number, connected.2.trans extending.2⟩
      have path := BlockTree.path_of_mem_path contains
        (BlockTree.parent_mem_path contains onPath contained extending)
      rw [← extending.1] at path
      have split := (tree.logsAlong_take_append_drop filter displaced.number
        (tree.path last)).symm
      rw [← logs] at split
      rw [isRun.path_getLast? contained behindParent isNewest, BlockTree.logsAlong_append, path]
      exact Entry.apply_cut _ _ _ split

/-- What a delta became, with the session as it is then. Only what waiting for
the logs allows happened besides. -/
def Took (tree : BlockTree) (filter : Filter)
    (meanwhile : Session Entry → ω → Session Entry → ω → Prop) (before : Session Entry)
    (early : ω) (last : Block) (delta : Delta) : LiveStep → Session Entry → ω → Prop
  | .applied newest, after, later =>
      delta.added.getLast? = some newest ∧ Stores tree filter before after newest ∧
        ∃ now, meanwhile before early now later ∧ after.follower = now.follower
  | .skipped, after, later =>
      meanwhile before early after later ∧
        ∃ base, Rests tree filter last delta base ∧
          ∀ block ∈ delta.added, block.number ≤ base.number
  | .gap, after, later => meanwhile before early after later

/-- A delta is taken in as far as its logs can be had, however that may fail. -/
theorem keeps_applyDelta {conduct : Conduct (Session Entry) ω}
    {meanwhile : Session Entry → ω → Session Entry → ω → Prop}
    {invariant stopped : Session Entry → ω → Prop} {config : Config} {delta : Delta}
    (refl : meanwhile session world session world)
    (kept : ∀ after later, meanwhile session world after later →
      after.entry = session.entry ∧ after.events = session.events)
    (invariant_of : ∀ now after later, meanwhile session world now later →
      after.follower = now.follower → after.entry.Matches tree config.filter →
        invariant after later)
    (fetches : ∀ blocks, (logsOfBlocks config blocks).Keeps conduct invariant
      (Outcome.Meets (fun logs after later => meanwhile session world after later ∧
        logs = tree.logsAlong config.filter blocks) stopped) session world)
    (contains : tree.Contains last)
    (logs : session.entry.logs = tree.logsAlong config.filter (tree.path last))
    (honest : delta.IsHonest tree) :
    (applyDelta config last delta).Keeps conduct invariant
      (Outcome.Meets (Took tree config.filter meanwhile session world last delta) stopped)
      session world := by
  apply (keeps_baseOf contains logs honest.removed).bind
  case fails => exact fun _ _ _ holds => holds.elim
  case halts => exact fun _ _ _ holds => holds.elim
  intro base? _ _ holds
  rcases holds with ⟨⟨rfl, rfl⟩, sound⟩
  cases base? with
  | none => exact refl
  | some base =>
      have rests := sound base rfl
      have isRun := honest.added.filter_above base.number
      dsimp only
      split
      case h_2 noBlocks =>
        refine ⟨refl, base, rests, fun block member => ?_⟩
        by_contra above
        have isAbove :
            block ∈ delta.added.filter fun block => decide (base.number < block.number) :=
          List.mem_filter.mpr ⟨member, by simpa using above⟩
        have some := List.ne_nil_of_mem isAbove
        exact noBlocks _ _ (List.head?_eq_some_head some) (List.getLast?_eq_some_getLast some)
      case h_1 first newest isFirst isNewest =>
        split
        case isFalse => exact refl
        case isTrue connected =>
          have applied := rests.apply honest.removed contains logs isRun isFirst isNewest connected
          have newestContained := isRun.2 newest (List.mem_of_getLast? isNewest)
          have isLast : delta.added.getLast? = some newest := by
            rcases honest.added.1.filter_above base.number with ⟨front, split⟩
            rw [split, List.getLast?_append, isNewest, Option.some_or]
          apply (fetches _).andThen
          intro _ now later holds
          rcases holds with ⟨passed, rfl⟩
          apply keeps_apply_stores (kept now later passed) applied rfl newestContained rfl
          · intro after entryMatches follower
            exact invariant_of now after later passed follower entryMatches
          · intro after stores follower
            exact ⟨isLast, stores, now, passed, follower⟩

/-! ## Safety -/

/-- The entry matches, and unless one event was stored it is the one from
before. -/
def MatchesStill (tree : BlockTree) (filter : Filter) (before after : Session Entry) : Prop :=
  after.entry.Matches tree filter ∧
    ((after.entry = before.entry ∧ after.events = before.events) ∨
      ∃ event, before.entry.apply event = .ok after.entry ∧
        after.events = before.events.publish event)

/-- However a piece of work ends, the entry matches still. -/
def IsSafe (conduct : Conduct (Session Entry) ω) (tree : BlockTree) (filter : Filter)
    (routine : Routine (Session Entry) α) (before : Session Entry) (early : ω) : Prop :=
  ∀ outcome after later, routine.Ends conduct before early outcome after later →
    MatchesStill tree filter before after

theorem isSafe_of_keeps {conduct : Conduct (Session Entry) ω}
    {invariant : Session Entry → ω → Prop} {met : α → Session Entry → ω → Prop}
    {routine : Routine (Session Entry) α} (sound : session.IsSound tree filter)
    (keeps : routine.Keeps conduct invariant
      (Outcome.Meets met (movement.besideStore tree session world)) session world)
    (safe : ∀ value after later, met value after later →
      movement.besideStore tree session world after later ∨
        ∃ last, Stores tree filter session after last) :
    IsSafe conduct tree filter routine session world := by
  have kept : ∀ after later, movement.besideStore tree session world after later →
      MatchesStill tree filter session after := fun after later passed =>
    ⟨(sound.besideStore passed).entry, .inl passed.1⟩
  intro outcome after later ended
  have ends := keeps.ends ended
  cases outcome with
  | value value =>
      rcases safe value after later ends with passed | ⟨last, stores⟩
      · exact kept after later passed
      · exact ⟨stores.entryMatches, .inr stores.event⟩
  | error error => exact kept after later ends
  | halted cause => exact kept after later ends

theorem Reached.stored_or_kept {last? : Option Block} {reached : Block}
    (holds : Reached tree filter movement before early last? reached after later) :
    movement.besideStore tree before early after later ∨
      ∃ last, Stores tree filter before after last :=
  holds.imp (fun passed => passed.1) fun stored => ⟨reached, stored.1⟩

theorem isSafe_reconcilePosition (sound : session.IsSound tree filter)
    (ends : session.entry.lastBlock = some last) :
    IsSafe (movement.conduct tree) tree filter (reconcilePosition last) session world :=
  isSafe_of_keeps sound (keeps_reconcilePosition sound ends) fun _ _ _ => Reached.stored_or_kept

theorem isSafe_hotZone {config : Config} {last? : Option Block} (turns : Nat)
    (sound : session.IsSound tree config.filter) (ends : session.entry.lastBlock = last?) :
    IsSafe (movement.conduct tree) tree config.filter
      (hotZone config turns (last?.elim 0 (·.number + 1)) last?) session world := by
  apply isSafe_of_keeps sound (keeps_hotZone turns sound ends)
  intro reached after later holds
  cases reached with
  | none => exact .inl holds
  | some block => exact holds.stored_or_kept

theorem isSafe_applyDelta {config : Config} {delta : Delta}
    (sound : session.IsSound tree config.filter) (ends : session.entry.lastBlock = some last)
    (honest : delta.IsHonest tree) :
    IsSafe (movement.conduct tree) tree config.filter (applyDelta config last delta) session
      world := by
  have matched := (Entry.matches_of_lastBlock ends).mp sound.entry
  have keeps : (applyDelta config last delta).Keeps (movement.conduct tree) (fun _ _ => True)
      (Outcome.Meets (Took tree config.filter (movement.besideStore tree) session world last delta)
        (movement.besideStore tree session world)) session world :=
    keeps_applyDelta (IsPassing.refl session world) (fun _ _ passed => passed.1)
      (fun _ _ _ _ _ _ => trivial)
      (fun blocks => (storesNothing_logsOfBlocks config blocks).keeps (fun _ _ _ => trivial)
        fun _ _ passed => passed) matched.1 matched.2 honest
  apply isSafe_of_keeps sound keeps
  intro step after later holds
  cases step with
  | applied newest => exact .inr ⟨newest, holds.2.1⟩
  | skipped => exact .inl holds.1
  | gap => exact .inl holds

/-- Work by hash is safe even if any block may become the head at any time. -/
theorem work_by_hash_is_safe (config : Config) (headOf : ω → Block) (world : ω)
    (sound : session.IsSound tree config.filter) :
    (∀ last, session.entry.lastBlock = some last →
      IsSafe ((Movement.anywhere headOf).conduct tree) tree config.filter
        (reconcilePosition last) session world ∧
      (∀ turns, IsSafe ((Movement.anywhere headOf).conduct tree) tree config.filter
        (hotZone config turns (last.number + 1) (some last)) session world) ∧
      ∀ delta : Delta, delta.IsHonest tree →
        IsSafe ((Movement.anywhere headOf).conduct tree) tree config.filter
          (applyDelta config last delta) session world) ∧
    (session.entry.lastBlock = none → ∀ turns,
      IsSafe ((Movement.anywhere headOf).conduct tree) tree config.filter
        (hotZone config turns 0 none) session world) := by
  constructor
  · intro last ends
    exact ⟨isSafe_reconcilePosition sound ends, fun turns => isSafe_hotZone turns sound ends,
      fun delta honest => isSafe_applyDelta sound ends honest⟩
  · intro empty turns
    exact isSafe_hotZone turns sound empty

/-- An entry follows a delta to the other branch of a fork. -/
theorem work_by_hash_is_safe_at_fork :
    let before := Session.endingAt Fork.tree {} (Fork.left 2)
    let delta : Delta :=
      { removed := [Fork.left 1, Fork.left 2], added := [Fork.right 1, Fork.right 2] }
    let ended := (applyDelta {} (Fork.left 2) delta).run
      (.scripted Fork.tree (Fork.switch 2 (Fork.right 2) (Fork.left 3))) before 0
    MatchesStill Fork.tree {} before ended.2.1 ∧
      ended.2.1.entry.lastBlock = some (Fork.right 2) := by
  have contains : Fork.tree.Contains (Fork.left 2) := by decide +kernel
  have follows := Fork.tree.scripted_follows (ε := Entry)
    (Movement.anywhere (Fork.switch 2 (Fork.right 2) (Fork.left 3)))
    (Fork.contains_switch (by decide +kernel) (by decide +kernel)) fun _ => trivial
  have safe := (work_by_hash_is_safe {} (Fork.switch 2 (Fork.right 2) (Fork.left 3)) 0
    (isSound_endingAt contains)).1 _ rfl
  exact ⟨safe.2.2 _ (by decide +kernel) _ _ _ (Routine.ends_run follows _ _ _),
    by decide +kernel⟩

end Session

end ReorgSync
