import ReorgSync.Proofs.Follower.Branches
import ReorgSync.Proofs.Sync.ChangeLog

namespace ReorgSync

/-! A configured start block is looked at only while nothing is stored. From then on a
session goes on where the stored part ends, so nothing below the start is stored until a
rollback takes the entry below it. -/

/-! ## Rollbacks -/

namespace BlockTree

variable {tree : BlockTree} {ancestor first other last left right : Block}

/-- The newest block that two branches have in common. -/
structure IsMeet (tree : BlockTree) (ancestor left right : Block) : Prop where
  onLeft : ancestor ∈ tree.path left
  onRight : ancestor ∈ tree.path right
  newest : ∀ block ∈ tree.path left, block ∈ tree.path right → block.number ≤ ancestor.number

theorem isMeet_of_mem_path (contains : tree.Contains last) (member : ancestor ∈ tree.path last) :
    tree.IsMeet ancestor last ancestor where
  onLeft := member
  onRight := self_mem_path (contains_of_mem_path contains member)
  newest _ _ onPath := number_le_of_mem_path (contains_of_mem_path contains member) onPath

theorem mem_path_of_number_le {block : Block} (contains : tree.Contains last)
    (member : first ∈ tree.path last) (onPath : block ∈ tree.path last)
    (below : first.number ≤ block.number) : first ∈ tree.path block := by
  rw [path_of_mem_path contains onPath]
  apply List.mem_of_getElem? (i := first.number)
  rw [List.getElem?_take_of_lt (Nat.lt_succ_of_le below)]
  exact (mem_path_iff contains).mp member

/-- Branches part behind a block that different blocks of them extend. -/
theorem isMeet_of_extends (containsLeft : tree.Contains left) (containsRight : tree.Contains right)
    (contains : tree.Contains ancestor) (onLeft : first ∈ tree.path left)
    (onRight : other ∈ tree.path right) (extending : first.Extends ancestor)
    (otherExtending : other.Extends ancestor) (apart : first ≠ other) :
    tree.IsMeet ancestor left right where
  onLeft := parent_mem_path containsLeft onLeft contains extending
  onRight := parent_mem_path containsRight onRight contains otherExtending
  newest block isLeft isRight := by
    by_contra above
    have next := extending.1
    have otherNext := otherExtending.1
    have firstOnPath := mem_path_of_number_le containsLeft onLeft isLeft (by omega)
    have otherOnPath := mem_path_of_number_le containsRight onRight isRight (by omega)
    exact apart (eq_of_mem_path (contains_of_mem_path containsLeft isLeft) firstOnPath
      otherOnPath (by omega))

/-- The logs of a run lie at the height of its first block, or above it. -/
theorem number_le_of_mem_logsAlong {filter : Filter} {rest : List Block} {log : Log}
    (isRun : tree.IsRun (first :: rest)) (member : log ∈ tree.logsAlong filter (first :: rest)) :
    first.number ≤ log.blockNumber := by
  rcases exists_mem_of_mem_logsAlong isRun.2 member with ⟨block, isMember, height⟩
  rw [height]
  exact number_le_of_mem_path (isRun.2 block isMember) (head_mem_path_of_mem isRun isMember)

end BlockTree

namespace Ledger

variable {ledger : Ledger} {floor : Nat}

/-- Nothing below a height is stored, and nothing below it is due next. -/
structure IsFrom (ledger : Ledger) (floor : Nat) : Prop where
  logs : ∀ log ∈ ledger.logs, floor ≤ log.blockNumber
  next : ∀ last ∈ ledger.lastBlock, floor ≤ last.number + 1

theorem isFrom_empty (floor : Nat) : ({} : Ledger).IsFrom floor where
  logs := List.forall_mem_nil _
  next := nofun

theorem IsFrom.follow {event : Event} (isFrom : ledger.IsFrom floor)
    (added : ∀ log ∈ event.added, floor ≤ log.blockNumber)
    (next : floor ≤ event.block.number + 1) : (ledger.follow event).IsFrom floor where
  logs log member := by
    rcases List.mem_append.mp member with kept | isAdded
    · apply isFrom.logs
      split at kept
      · exact kept
      · exact List.mem_of_mem_take kept
    · exact added log isAdded
  next _ same := by
    cases same
    exact next

/-- What is stored of a branch is cut off, and the entry moves to another branch that left
it behind a common ancestor. -/
structure RollsBack (tree : BlockTree) (ancestor : Block) (before after : Ledger) : Prop where
  cuts : ∃ event : Event, event.truncateTo.isSome = true ∧ after = before.follow event
  parts : ∃ last newest, before.lastBlock = some last ∧ after.lastBlock = some newest ∧
    tree.IsMeet ancestor last newest

/-- Nothing below a height is stored, unless by a rollback to an ancestor below it. -/
def KeepsFrom (tree : BlockTree) (floor : Nat) (before after : Ledger) : Prop :=
  before.IsFrom floor → after.IsFrom floor ∨
    ∃ ancestor, ancestor.number + 1 < floor ∧ before.RollsBack tree ancestor after

end Ledger

/-! ## Surroundings -/

namespace Movement

/-- The conduct of what surrounds a session, where others too feed its follower from branch
to branch. -/
def branching (movement : Movement ω) (tree : BlockTree) : Conduct (Session ε) ω :=
  fun query before early answer after late =>
    movement.conduct tree query before early answer after late ∧
      Follower.besideBranches before.follower early after.follower late

/-- What may happen while nothing is stored. -/
def besideBranching (movement : Movement ω) (tree : BlockTree) :
    Session ε → ω → Session ε → ω → Prop :=
  fun before early after late =>
    movement.besideStore tree before early after late ∧
      Follower.besideBranches before.follower early after.follower late

variable {movement : Movement ω} {tree : BlockTree}

instance : IsPassing (movement.besideBranching (ε := ε) tree) where
  refl session world := ⟨IsPassing.refl session world, IsPassing.refl session.follower world⟩
  trans earlier later := ⟨IsPassing.trans earlier.1 later.1, IsPassing.trans earlier.2 later.2⟩

instance : (movement.branching (ε := ε) tree).Within (movement.besideBranching tree) where
  asked accepted := ⟨(movement.conduct tree).asked accepted.1, accepted.2⟩

end Movement

namespace Session

open Routine (Guarantees OnlyWrites Quietly)

variable {ε ω : Type} [EntryStore ε] [RecallingStore ε] {tree : BlockTree} {movement : Movement ω}
  {floor start : Nat} {session before after : Session ε} {world : ω} {setup : Setup}
  {turns : Nat} {last : Block}

/-- The entry and the follower of a session hold nothing but blocks of a tree. -/
structure IsOf (session : Session ε) (tree : BlockTree) : Prop where
  follower : session.follower.IsHonest tree
  branches : session.follower.PartsBranches
  last : ∀ last ∈ session.ledger.lastBlock, tree.Contains last

theorem IsOf.besideBranching {early late : ω} (isOf : before.IsOf tree)
    (passed : movement.besideBranching tree before early after late) : after.IsOf tree where
  follower := Movement.isHonest_of_besideStore passed.1 isOf.follower
  branches := passed.2 isOf.branches
  last := by
    rw [ledger, passed.1.1.1]
    exact isOf.last

theorem IsOf.branching {query : Query} {answer : query.Answer} {early late : ω}
    (isOf : before.IsOf tree)
    (accepted : movement.branching tree query before early answer after late) :
    after.IsOf tree := by
  have passed : movement.besideBranching tree before early after late :=
    (movement.branching tree).asked accepted
  exact isOf.besideBranching passed

/-- One write of a session that starts at a height. -/
structure WritesFrom (tree : BlockTree) (floor : Nat) (before after : Session ε) : Prop where
  isOf : before.IsOf tree → after.IsOf tree
  keeps : before.ledger.KeepsFrom tree floor after.ledger

theorem writesFrom_of_eq (ledger : after.ledger = before.ledger)
    (isOf : before.IsOf tree → after.IsOf tree) : WritesFrom tree floor before after where
  isOf := isOf
  keeps isFrom := .inl (ledger ▸ isFrom)

/-- As long as the surroundings behave, each write of a routine keeps what is stored above
a height unless it is a rollback. -/
abbrev Fills (tree : BlockTree) (movement : Movement ω) (floor : Nat)
    (met : α → Session ε → Prop) (routine : Routine (Session ε) α) (session : Session ε)
    (world : ω) : Prop :=
  routine.Guarantees (movement.branching tree) (WritesFrom tree floor)
    (fun value after => after.IsOf tree ∧ met value after) session world

/-! ## Work that stores nothing -/

theorem fills_of_quietly {found : α → Prop} {routine : Routine (Session ε) α}
    (isOf : session.IsOf tree) (stores : StoresNothing tree movement found routine session world)
    (parts : routine.Quietly (tree.conduct movement.headOf (sharing Follower.besideBranches))
      (sharing Follower.besideBranches) (fun _ _ _ => True) session world) :
    Fills tree movement floor (fun value after => after.ledger = session.ledger ∧ found value)
      routine session world := by
  have stores : routine.Quietly (movement.branching tree) (movement.besideStore tree)
      (fun value _ _ => found value) session world :=
    stores.mono_conduct fun _ _ _ _ _ _ accepted => accepted.1
  have parts : routine.Quietly (movement.branching tree) (sharing Follower.besideBranches)
      (fun _ _ _ => True) session world :=
    parts.mono_conduct fun _ _ _ _ _ _ accepted =>
      ⟨⟨accepted.1.1.1, accepted.2⟩, accepted.1.2⟩
  have quietly : routine.Quietly (movement.branching tree) (movement.besideBranching tree)
      (fun value _ _ => found value) session world := by
    refine ((Routine.Keeps.and stores parts).mono_invariant fun _ _ holds => ⟨holds.1, holds.2.2⟩).mono ?_
    intro outcome after later holds
    cases outcome with
    | value value => exact ⟨⟨holds.1.1, holds.2.1.2⟩, holds.1.2⟩
    | error error => exact ⟨holds.1, holds.2.2⟩
    | halted cause => exact ⟨holds.1, holds.2.2⟩
  refine (Guarantees.of_quietly quietly ?_).mono ?_
  · intro before after early late passed passedThen
    apply writesFrom_of_eq
    · rw [ledger, ledger, passed.1.1.1, passedThen.1.1.1]
    · exact fun _ => isOf.besideBranching passedThen
  · rintro value after ⟨later, passed, holds⟩
    exact ⟨isOf.besideBranching passed, congrArg FaithfulStore.ledger passed.1.1.1, holds⟩

/-- Work that only looks, in front of work that may store something. -/
theorem fills_after_look {found : α → Prop} {met : β → Session ε → Prop}
    {first : Routine (Session ε) α} {second : α → Routine (Session ε) β}
    (isOf : session.IsOf tree) (stores : StoresNothing tree movement found first session world)
    (only : first.OnlyWrites (fun _ _ => False) session)
    (continues : ∀ value after (later : ω), after.IsOf tree → after.ledger = session.ledger →
      found value → Fills tree movement floor met (second value) after later) :
    Fills tree movement floor met (first >>= second) session world := by
  refine .andThen (fills_of_quietly isOf stores (only.quietly fun _ _ _ => False.elim)) ?_
  exact fun value after later holds =>
    continues value after later holds.1 holds.2.1 holds.2.2

/-! ## Writes -/

theorem fills_apply {event : Event} (isOf : session.IsOf tree)
    (contains : tree.Contains event.block)
    (keeps : session.ledger.KeepsFrom tree floor (session.ledger.follow event)) :
    Fills tree movement floor (fun _ after => after.ledger = session.ledger.follow event)
      (Session.apply event) session world := by
  rw [Session.apply, changeEntry, bind_assoc]
  apply guarantees_readEntry
  intro stored applied
  have follows : FaithfulStore.ledger stored = session.ledger.follow event :=
    FaithfulStore.ledger_apply applied
  have stays : ∀ events, ({ session with entry := stored, events } : Session ε).IsOf tree := by
    refine fun events => ⟨isOf.follower, isOf.branches, ?_⟩
    rw [ledger, follows]
    rintro _ ⟨⟩
    exact contains
  have stores : WritesFrom tree floor session { session with entry := stored } := by
    refine ⟨fun _ => stays _, ?_⟩
    rw [ledger, ledger, follows]
    exact keeps
  exact ⟨stores, writesFrom_of_eq rfl fun _ => stays _, stays _, follows⟩

theorem fills_append {logs : List Log} {block : Block} {origin : Nat} (isOf : session.IsOf tree)
    (contains : tree.Contains block) (reaches : origin ≤ block.number + 1)
    (above : ∀ log ∈ logs, origin ≤ log.blockNumber)
    (due : session.ledger.IsFrom floor → floor ≤ origin) :
    Fills tree movement floor (fun _ after => after.ledger.lastBlock = some block)
      (Session.apply (.append logs block)) session world := by
  refine (fills_apply isOf contains fun isFrom => .inl ?_).mono ?_
  · have below := due isFrom
    exact isFrom.follow (fun log member => Nat.le_trans below (above log member))
      (Nat.le_trans below reaches)
  · exact fun _ after holds => ⟨holds.1, congrArg Ledger.lastBlock holds.2⟩

theorem fills_enter (phase : Phase) (isOf : session.IsOf tree) :
    Fills tree movement floor (fun _ after => after.ledger = session.ledger) (enter phase) session
      world := by
  have entered : ({ session with phase } : Session ε).IsOf tree :=
    ⟨isOf.follower, isOf.branches, isOf.last⟩
  exact ⟨writesFrom_of_eq rfl fun _ => entered, entered, rfl⟩

/-! ## Where to go on -/

/-- A piece of work goes on behind the block that the entry ends at, or at the start if
nothing is stored. -/
structure StandsFrom (floor : Nat) (ledger : Ledger) (origin : Nat) (last? : Option Block) :
    Prop where
  ends : ledger.lastBlock = last?
  behind : ∀ last ∈ last?, origin = last.number + 1
  starts : last? = none → floor ≤ origin

theorem StandsFrom.due {ledger : Ledger} {origin : Nat} {last? : Option Block}
    (stands : StandsFrom floor ledger origin last?) (isFrom : ledger.IsFrom floor) :
    floor ≤ origin := by
  cases last? with
  | none => exact stands.starts rfl
  | some last =>
      rw [stands.behind last rfl]
      exact isFrom.next last stands.ends

theorem standsFrom_behind {ledger : Ledger} (ends : ledger.lastBlock = some last) :
    StandsFrom floor ledger (last.number + 1) (some last) where
  ends := ends
  behind := by
    rintro _ ⟨⟩
    rfl
  starts := nofun

theorem fills_reconcilePosition (isOf : session.IsOf tree)
    (ends : session.ledger.lastBlock = some last) :
    Fills tree movement floor (fun ancestor after => after.ledger.lastBlock = some ancestor)
      (reconcilePosition last) session world := by
  have contains := isOf.last last ends
  apply fills_after_look isOf storesNothing_height (onlyWrites_call _)
  intro head after later isOf same _
  split
  case isTrue => trivial
  case isFalse =>
    apply fills_after_look isOf (storesNothing_blockAt _) (onlyWrites_blockAt _)
    intro canonical after later isOf sameThen isCanonical
    have ends := (congrArg Ledger.lastBlock (sameThen.trans same)).trans ends
    split
    case isTrue => exact ⟨isOf, ends⟩
    case isFalse =>
      apply Guarantees.get_andThen
      apply fills_after_look isOf (storesNothing_commonAncestor _ _ contains
        (BlockTree.self_mem_path contains) isCanonical.1
        (BlockTree.self_mem_path isCanonical.1)) (onlyWrites_commonAncestor _ _ _ _ _)
      rintro ancestor after later isOf same ⟨onPath, -⟩
      have ends := (congrArg Ledger.lastBlock same).trans ends
      apply Guarantees.computes (.sum _ _)
      apply guarantees_readEntry
      intro parts _
      refine .andThen (fills_apply isOf (BlockTree.contains_of_mem_path contains onPath) ?_) ?_
      · intro isFrom
        by_cases below : ancestor.number + 1 < floor
        · exact .inr ⟨ancestor, below, ⟨_, rfl, rfl⟩, last, ancestor, ends, rfl,
            BlockTree.isMeet_of_mem_path contains onPath⟩
        · exact .inl (isFrom.follow (List.forall_mem_nil _) (Nat.le_of_not_lt below))
      · exact fun _ after later holds => ⟨holds.1, congrArg Ledger.lastBlock holds.2⟩

theorem fills_origin (isStart : setup.config.startBlock = some start) (within : floor ≤ start)
    (isOf : session.IsOf tree) :
    Fills tree movement floor (fun place after => StandsFrom floor after.ledger place.1 place.2)
      (origin setup) session world := by
  apply guarantees_readEntry
  intro last? read
  have ends := RecallingStore.lastBlock_eq read
  cases last? with
  | some last =>
      refine .andThen (fills_reconcilePosition isOf ends.symm) fun ancestor after later holds => ?_
      exact .computes (.sum _ _) ⟨holds.1, standsFrom_behind holds.2⟩
  | none =>
      have starts : Fills tree movement floor (fun origin after =>
          StandsFrom floor after.ledger origin none) (Session.start setup) session world := by
        rw [Session.start, isStart]
        apply fills_after_look isOf storesNothing_height (onlyWrites_call _)
        intro head after later isOf same _
        split
        case isTrue => trivial
        case isFalse =>
          have ended := (congrArg Ledger.lastBlock same).trans ends.symm
          exact ⟨isOf, ended, fun _ isLast => (Option.not_mem_none _ isLast).elim, fun _ => within⟩
      exact .andThen starts fun _ _ _ holds => holds

/-! ## Catching up -/

theorem StandsFrom.of_eq {ledger other : Ledger} {origin : Nat} {last? : Option Block}
    (stands : StandsFrom floor ledger origin last?) (same : other = ledger) :
    StandsFrom floor other origin last? :=
  same ▸ stands

theorem fills_backfillRange {config : Config} {state : Backfill} {rangeEnd : Nat}
    (isOf : session.IsOf tree) (ordered : state.origin ≤ rangeEnd)
    (stands : StandsFrom floor session.ledger state.origin state.last) :
    Fills tree movement floor (fun state after =>
      StandsFrom floor after.ledger state.origin state.last) (backfillRange config state rangeEnd)
      session world := by
  apply fills_after_look isOf (storesNothing_range config.filter state.origin rangeEnd)
    (onlyWrites_reply _)
  intro reply after later isOf same above
  have stands := stands.of_eq same
  rcases reply with _ | error | logs
  · trivial
  · dsimp only
    split
    case isTrue => exact ⟨isOf, stands⟩
    case isFalse => trivial
  · apply fills_after_look isOf (storesNothing_blockAt rangeEnd) (onlyWrites_blockAt _)
    rintro block after later isOf same ⟨contains, number⟩
    have stands := stands.of_eq same
    refine .andThen (fills_append isOf contains (by omega) (above logs rfl) stands.due) ?_
    rintro _ after later ⟨isOf, ends⟩
    refine .of_computes (Backfill.computes_checkAdvance _ _ _ _) ⟨isOf, ?_⟩
    rw [Backfill.advance, ← number]
    exact standsFrom_behind ends

theorem fills_backfillStep {config : Config} {state : Backfill} (isOf : session.IsOf tree)
    (stands : StandsFrom floor session.ledger state.origin state.last) :
    Fills tree movement floor (fun turn after =>
      match turn with
      | .inl state => StandsFrom floor after.ledger state.origin state.last
      | .inr reached => ∀ state ∈ reached, StandsFrom floor after.ledger state.origin state.last)
      (backfillStep config state) session world := by
  apply fills_after_look isOf .checkCanceled .checkCanceled
  intro _ after later isOf same _
  have stands := stands.of_eq same
  apply fills_after_look isOf (storesNothing_isSettled state) (onlyWrites_isSettled state)
  intro settled after later isOf same _
  have stands := stands.of_eq same
  cases settled with
  | false => exact ⟨isOf, nofun⟩
  | true =>
      apply Guarantees.get_andThen
      apply fills_after_look isOf storesNothing_height (onlyWrites_call _)
      intro head after later isOf same bounded
      have stands := stands.of_eq same
      apply Guarantees.computes (Backfill.computes_checkNear _ _ _)
      split
      case isTrue =>
        refine ⟨isOf, ?_⟩
        rintro _ ⟨⟩
        exact stands
      case isFalse far =>
        have ordered := (Backfill.rangeEnd_settled far (Nat.lt_of_succ_lt bounded)).1
        refine .andThen (fills_enter .backfilling isOf) ?_
        rintro _ after later ⟨isOf, same⟩
        apply Guarantees.computes (Backfill.computes_checkEnd _ _ _)
        exact .andThen (fills_backfillRange isOf ordered (stands.of_eq same)) fun _ _ _ holds =>
          holds

theorem fills_backfill {config : Config} {origin : Nat} {last? : Option Block}
    (isOf : session.IsOf tree) (stands : StandsFrom floor session.ledger origin last?) :
    Fills tree movement floor (fun reached after => ∀ state ∈ reached,
      StandsFrom floor after.ledger state.origin state.last)
      (backfill config turns origin last?) session world := by
  refine Guarantees.iterate (fun state after =>
    after.IsOf tree ∧ StandsFrom floor after.ledger state.origin state.last) ?_ turns _
    ⟨isOf, stands⟩
  rintro state session world ⟨isOf, stands⟩
  refine (fills_backfillStep isOf stands).mono fun turn after holds => ?_
  cases turn with
  | inl state => exact holds
  | inr reached => exact holds

theorem fills_refreshHead (isOf : session.IsOf tree) :
    Fills tree movement floor (fun head after =>
      after.ledger = session.ledger ∧ tree.Contains head) refreshHead session world :=
  fills_of_quietly isOf (storesNothing_refreshHead isOf.follower) parts_refreshHead

theorem fills_hotZone {config : Config} {origin : Nat} {last? : Option Block}
    (isOf : session.IsOf tree) (stands : StandsFrom floor session.ledger origin last?) :
    Fills tree movement floor (fun reached after => ∀ block ∈ reached,
      after.ledger.lastBlock = some block) (hotZone config turns origin last?) session world := by
  refine .andThen (fills_refreshHead isOf) ?_
  rintro head after later ⟨isOf, same, contains⟩
  have stands := stands.of_eq same
  split
  case isTrue =>
    cases last? with
    | none => trivial
    | some last =>
        refine ⟨isOf, ?_⟩
        rintro _ ⟨⟩
        exact stands.ends
  case isFalse above =>
    refine .andThen (fills_enter .hotZone isOf) ?_
    rintro _ after later ⟨isOf, same⟩
    have stands := stands.of_eq same
    apply fills_after_look isOf (storesNothing_descend turns origin contains
      (Nat.le_of_not_lt above) isOf.follower) (onlyWrites_descend turns origin head)
    rintro ⟨oldest, newer⟩ after later isOf same ⟨isRun, isLast, number⟩
    have stands := stands.of_eq same
    dsimp only at isRun isLast number ⊢
    split
    case isFalse => exact ⟨isOf, nofun⟩
    case isTrue =>
      apply fills_after_look isOf (storesNothing_logsOfBlocks config _)
        (onlyWrites_logsOfBlocks config _)
      rintro _ after later isOf same rfl
      refine .andThen (fills_append isOf contains (by omega) (fun log member =>
        number ▸ BlockTree.number_le_of_mem_logsAlong isRun member) (stands.of_eq same).due) ?_
      rintro _ after later ⟨isOf, ends⟩
      refine ⟨isOf, ?_⟩
      rintro _ ⟨⟩
      exact ends

theorem fills_round (isStart : setup.config.startBlock = some start) (within : floor ≤ start)
    (isOf : session.IsOf tree) :
    Fills tree movement floor (fun reached after => ∀ block ∈ reached,
      after.ledger.lastBlock = some block) (round setup turns) session world := by
  refine .andThen (fills_origin isStart within isOf) ?_
  rintro ⟨origin, last?⟩ after later ⟨isOf, stands⟩
  refine .andThen (fills_backfill isOf stands) ?_
  rintro reached after later ⟨isOf, stands⟩
  cases reached with
  | none => exact ⟨isOf, nofun⟩
  | some state => exact fills_hotZone isOf (stands state rfl)

theorem fills_rounds (isStart : setup.config.startBlock = some start) (within : floor ≤ start)
    (left past : Nat) (isOf : session.IsOf tree) :
    Fills tree movement floor (fun block after => after.ledger.lastBlock = some block)
      (rounds setup turns left past) session world := by
  induction left generalizing past session world with
  | zero =>
      refine .andThen (fills_round isStart within isOf) ?_
      rintro reached after later ⟨isOf, ends⟩
      cases reached with
      | none => trivial
      | some block => exact ⟨isOf, ends block rfl⟩
  | succ left induction =>
      refine .andThen (fills_round isStart within isOf) ?_
      rintro reached after later ⟨isOf, ends⟩
      cases reached with
      | some block => exact ⟨isOf, ends block rfl⟩
      | none =>
          exact fills_after_look isOf .sleep .sleep fun _ _ _ isOf _ _ => induction (past + 1) isOf

theorem fills_identifyOnce (isOf : session.IsOf tree) :
    Fills tree movement floor (fun _ _ => True) identifyOnce session world := by
  refine (Guarantees.of_onlyWrites onlyPrepares_identifyOnce ?allowed ?stable isOf).mono
    fun _ _ isOf => ⟨isOf, trivial⟩
  case allowed =>
    intro before after isOf prepares
    have stays : after.IsOf tree := by
      refine ⟨?_, ?_, ?_⟩
      · rw [prepares.follower]
        exact isOf.follower
      · rw [prepares.follower]
        exact isOf.branches
      · rw [prepares.ledger_eq]
        exact isOf.last
    exact ⟨writesFrom_of_eq prepares.ledger_eq fun _ => stays, stays⟩
  case stable => exact fun _ _ _ _ _ _ accepted isOf => isOf.branching accepted

theorem fills_catchUp (isStart : setup.config.startBlock = some start) (within : floor ≤ start)
    (isOf : session.IsOf tree) :
    Fills tree movement floor (fun block after => after.ledger.lastBlock = some block)
      (catchUp setup turns) session world :=
  .andThen (fills_identifyOnce isOf) fun _ _ _ holds => fills_rounds isStart within _ _ holds.1

/-- However work ends, its session stays one of the tree. -/
theorem fills_attempt {met : α → Session ε → Prop} {work : Routine (Session ε) α}
    (fills : Fills tree movement floor met work session world) (isOf : session.IsOf tree) :
    Fills tree movement floor (fun outcome after => ∀ value, outcome = .ok value → met value after)
      work.attempt session world := by
  refine (fills.attempt_keeping (fun _ _ writes => writes.isOf)
    (fun _ _ _ _ _ _ accepted isOf => isOf.branching accepted) isOf).mono ?_
  exact fun outcome after holds => ⟨holds.1, fun value same => (holds.2 value same).2⟩

theorem fills_concluding {met : α → Session ε → Prop} {work : Routine (Session ε) α}
    (fills : Fills tree movement floor met work session world) (isOf : session.IsOf tree) :
    Fills tree movement floor met (concluding work) session world := by
  refine .andThen (fills_attempt fills isOf) ?_
  rintro outcome after later ⟨isOf, holds⟩
  cases outcome with
  | ok value => exact ⟨isOf, holds value rfl⟩
  | error error => exact .andThen (fills_enter _ isOf) fun _ _ _ _ => trivial

/-! ## Following -/

/-- Where a delta connects to an entry that ends at `last`: behind that block, or in front
of the oldest block that it takes back. -/
inductive Connects (tree : BlockTree) (last : Block) (delta : Delta) : Base → Prop
  | behind : Connects tree last delta { number := last.number, hash := last.hash }
  | below {first : Block} {cut : Nat} {removed : List Log}
      (isFirst : first ∈ delta.removed) (onPath : first ∈ tree.path last) :
      Connects tree last delta {
        number := first.number - 1
        hash := first.parentHash
        truncateTo := some cut
        removed }

theorem fills_baseOf {delta : Delta} (isOf : session.IsOf tree) (contains : tree.Contains last)
    (removed : tree.IsRun delta.removed) :
    Fills tree movement floor (fun base? after => after.ledger = session.ledger ∧
      ∀ base ∈ base?, Connects tree last delta base) (baseOf last delta) session world := by
  have unchanged : ∀ base ∈ some ({ number := last.number, hash := last.hash } : Base),
      Connects tree last delta base := by
    rintro _ ⟨⟩
    exact .behind
  rw [baseOf.eq_def]
  split
  case h_1 => exact ⟨isOf, rfl, unchanged⟩
  case h_2 first rest isRemoved =>
    rw [isRemoved] at removed
    split
    case isTrue => exact ⟨isOf, rfl, unchanged⟩
    case isFalse =>
      split
      case isTrue isHash =>
        apply guarantees_readEntry
        intro parts _
        refine ⟨isOf, rfl, ?_⟩
        rintro _ ⟨⟩
        rw [isRemoved] at isHash
        refine .below ?_ (BlockTree.head_mem_path_of_hash removed contains isHash)
        rw [isRemoved]
        exact List.mem_cons_self
      case isFalse =>
        split
        case isTrue => exact ⟨isOf, rfl, unchanged⟩
        case isFalse => exact ⟨isOf, rfl, fun _ isBase => (Option.not_mem_none _ isBase).elim⟩

/-- What a delta takes back below a height, it takes back to where its branches part. -/
theorem Connects.keepsFrom {ledger : Ledger} {delta : Delta} {base : Base} {first newest : Block}
    {rest : List Block} (filter : Filter) (connects : Connects tree last delta base)
    (contains : tree.Contains last) (ends : ledger.lastBlock = some last)
    (honest : delta.IsHonest tree) (parts : delta.Parts) (isRun : tree.IsRun (first :: rest))
    (isAdded : first ∈ delta.added) (isNewest : newest ∈ first :: rest)
    (connected : first.number = base.number + 1 ∧ first.parentHash = base.hash) :
    ledger.KeepsFrom tree floor (ledger.follow
      { added := tree.logsAlong filter (first :: rest), removed := base.removed,
        truncateTo := base.truncateTo, block := newest }) := by
  intro isFrom
  have firstContained := isRun.2 first List.mem_cons_self
  have newestContained := isRun.2 newest isNewest
  have onPath := BlockTree.head_mem_path_of_mem isRun isNewest
  have reaches := BlockTree.number_le_of_mem_path newestContained onPath
  have follows : ∀ {removed truncateTo}, floor ≤ first.number → (ledger.follow
      { added := tree.logsAlong filter (first :: rest), removed, truncateTo,
        block := newest }).IsFrom floor := fun due =>
    isFrom.follow (fun log member => Nat.le_trans due
      (BlockTree.number_le_of_mem_logsAlong isRun member))
      (Nat.le_succ_of_le (Nat.le_trans due reaches))
  cases connects with
  | behind =>
      have due : floor ≤ first.number := by
        rw [connected.1]
        exact isFrom.next last ends
      exact .inl (follows due)
  | @below displaced cut removed isDisplaced displacedOnPath =>
      rcases tree.exists_parent firstContained (by omega) with ⟨parent, found, number⟩
      have isParent := found
      rw [connected.2] at isParent
      have extending := BlockTree.extends_of_block? (honest.removed.2 displaced isDisplaced) isParent
      by_cases below : parent.number + 1 < floor
      · refine .inr ⟨parent, below, ⟨_, rfl, rfl⟩, last, newest, ends, rfl, ?_⟩
        refine BlockTree.isMeet_of_extends contains newestContained
          (BlockTree.contains_of_block? found) displacedOnPath onPath extending
          (BlockTree.extends_of_block? firstContained found) ?_
        rintro rfl
        exact parts _ isDisplaced isAdded
      · have due : floor ≤ first.number := number ▸ Nat.le_of_not_lt below
        exact .inl (follows due)

theorem fills_applyDelta {config : Config} {delta : Delta} (isOf : session.IsOf tree)
    (ends : session.ledger.lastBlock = some last) (honest : delta.IsHonest tree)
    (parts : delta.Parts) :
    Fills tree movement floor (fun step after =>
      after.ledger.lastBlock = some (step.lastAfter last)) (applyDelta config last delta) session
      world := by
  have contains := isOf.last last ends
  refine .andThen (fills_baseOf isOf contains honest.removed) ?_
  rintro base? after later ⟨isOf, same, connects⟩
  have ends := (congrArg Ledger.lastBlock same).trans ends
  cases base? with
  | none => exact ⟨isOf, ends⟩
  | some base =>
      have isRun := honest.added.filter_above base.number
      dsimp only
      split
      case h_2 => exact ⟨isOf, ends⟩
      case h_1 first newest isFirst isNewest =>
        split
        case isFalse => exact ⟨isOf, ends⟩
        case isTrue connected =>
          have isAdded := (List.mem_filter.mp (List.mem_of_head? isFirst)).1
          have isLast := List.mem_of_getLast? isNewest
          rcases List.head?_eq_some_iff.mp isFirst with ⟨rest, split⟩
          apply fills_after_look isOf (storesNothing_logsOfBlocks config _)
            (onlyWrites_logsOfBlocks config _)
          rintro _ after later isOf same rfl
          have ends := (congrArg Ledger.lastBlock same).trans ends
          rw [split] at isRun isLast ⊢
          refine .andThen (fills_apply isOf (isRun.2 newest isLast)
            ((connects base rfl).keepsFrom config.filter contains ends honest parts isRun isAdded
              isLast connected)) ?_
          exact fun _ after later holds => ⟨holds.1, congrArg Ledger.lastBlock holds.2⟩

theorem fills_resume (isStart : setup.config.startBlock = some start) (within : floor ≤ start)
    (position : Nat) (isOf : session.IsOf tree) :
    Fills tree movement floor (fun live after => after.ledger.lastBlock = some live.last)
      (resume setup turns position) session world := by
  refine .andThen (fills_catchUp isStart within isOf) ?_
  rintro last after later ⟨isOf, ends⟩
  refine .andThen (fills_enter .live isOf) ?_
  rintro _ after later ⟨isOf, same⟩
  exact ⟨isOf, (congrArg Ledger.lastBlock same).trans ends⟩

theorem fills_liveStep {live : Live} (isStart : setup.config.startBlock = some start)
    (within : floor ≤ start) (isOf : session.IsOf tree)
    (ends : session.ledger.lastBlock = some live.last) :
    Fills tree movement floor (fun turn after =>
      ∀ live, turn = .inl live → after.ledger.lastBlock = some live.last)
      (liveStep setup turns live) session world := by
  have resumes : ∀ (position : Nat) (now : Session ε) (late : ω), now.IsOf tree →
      Fills tree movement floor (fun turn after =>
        ∀ live, turn = .inl live → after.ledger.lastBlock = some live.last)
        (resume setup turns position >>= fun live => pure (.inl live : Live ⊕ Empty)) now late := by
    intro position now late isOf
    refine .andThen (fills_resume isStart within position isOf) ?_
    rintro live after later ⟨isOf, ends⟩
    refine ⟨isOf, ?_⟩
    rintro _ ⟨⟩
    exact ends
  apply Guarantees.get_andThen
  dsimp only
  split
  case h_1 => exact resumes _ session world isOf
  case h_2 =>
    intro canceled after later accepted
    have passed : movement.besideBranching tree session world after later :=
      (movement.branching tree).asked accepted
    cases canceled with
    | true => trivial
    | false =>
        refine ⟨isOf.besideBranching passed, ?_⟩
        rintro _ ⟨⟩
        rw [ledger, passed.1.1.1]
        exact ends
  case h_3 delta found =>
    have isRecent := Feed.mem_recent_of_find found
    refine .andThen (fills_applyDelta isOf ends (isOf.follower.deltas delta isRecent)
      (isOf.branches delta isRecent)) ?_
    rintro step after later ⟨isOf, ends⟩
    cases step with
    | applied newest =>
        refine ⟨isOf, ?_⟩
        rintro _ ⟨⟩
        exact ends
    | skipped =>
        refine ⟨isOf, ?_⟩
        rintro _ ⟨⟩
        exact ends
    | gap => exact resumes _ after later isOf

theorem fills_run (isStart : setup.config.startBlock = some start) (within : floor ≤ start)
    (isOf : session.IsOf tree) :
    Fills tree movement floor (fun _ _ => True) (run setup turns) session world := by
  have follows : Fills tree movement floor (fun _ _ => True) (follow setup turns) session world := by
    apply Guarantees.get_andThen
    refine .andThen (fills_resume isStart within _ isOf) ?_
    rintro live after later ⟨isOf, ends⟩
    refine Guarantees.iterate (fun live after =>
      after.IsOf tree ∧ after.ledger.lastBlock = some live.last) ?_ turns live ⟨isOf, ends⟩
    rintro live session world ⟨isOf, ends⟩
    refine (fills_liveStep isStart within isOf ends).mono fun turn after holds => ?_
    cases turn with
    | inl live => exact ⟨holds.1, holds.2 live rfl⟩
    | inr never => exact never.elim
  refine .andThen (fills_attempt (fills_concluding follows isOf) isOf) ?_
  rintro outcome after later ⟨isOf, -⟩
  cases outcome with
  | ok never => cases never
  | error error =>
      dsimp only
      split
      · exact ⟨isOf, trivial⟩
      · trivial

/-! ## Calls of a session -/

theorem fills_call (job : Job) (isStart : setup.config.startBlock = some start)
    (within : floor ≤ start) (isOf : session.IsOf tree) :
    Fills tree movement floor (fun _ _ => True) (job.call setup) session world := by
  cases job with
  | sync turns =>
      exact .andThen (fills_concluding (fills_catchUp isStart within isOf) isOf)
        fun _ _ _ holds => ⟨holds.1, trivial⟩
  | run turns => exact fills_run isStart within isOf

theorem fills_serve (jobs : List Job) (isStart : setup.config.startBlock = some start)
    (within : floor ≤ start) (isOf : session.IsOf tree) :
    Fills tree movement floor (fun _ _ => True) (serve setup jobs) session world := by
  induction jobs generalizing session world with
  | nil => exact ⟨isOf, trivial⟩
  | cons job rest induction =>
      exact .andThen (fills_attempt (fills_call job isStart within isOf) isOf)
        fun _ _ _ holds => induction holds.1

/-- Whatever a session over an empty entry is called for, and however the head of an honest
node moves: a log that is stored from below the configured start block lies above the
common ancestor of a rollback that was stored before. As long as no rollback went below the
start block, all that is stored is from there on. -/
theorem logs_below_start_follow_rollback (setup : Setup) (jobs : List Job)
    (movement : Movement ω) (world : ω) (isStart : setup.config.startBlock = some start)
    (empty : session.ledger = {}) (honest : session.follower.IsHonest tree)
    (branches : session.follower.PartsBranches) {now : Situation (Session ε) ω Unit}
    (reached : Situation.Reaches (movement.branching tree) ⟨serve setup jobs, session, world⟩ now) :
    ∀ log ∈ now.state.ledger.logs, start ≤ log.blockNumber ∨
      ∃ (before after : Situation (Session ε) ω Unit) (ancestor : Block),
        Situation.Reaches (movement.branching tree) ⟨serve setup jobs, session, world⟩ before ∧
        Situation.Step (movement.branching tree) before after ∧
        Situation.Reaches (movement.branching tree) after now ∧
        before.state.ledger.RollsBack tree ancestor after.state.ledger ∧
        ancestor.number < log.blockNumber := by
  intro log member
  by_cases above : start ≤ log.blockNumber
  · exact .inl above
  -- The height behind the log is one that the entry has come below.
  have within : log.blockNumber + 1 ≤ start := Nat.lt_of_not_le above
  have isOf : session.IsOf tree := by
    refine ⟨honest, branches, ?_⟩
    rw [empty]
    exact nofun
  have isFrom : session.ledger.IsFrom (log.blockNumber + 1) := by
    rw [empty]
    exact Ledger.isFrom_empty _
  have fills : Fills tree movement (log.blockNumber + 1) (fun _ _ => True) (serve setup jobs)
      session world := fills_serve jobs isStart within isOf
  have kept := Guarantees.holds_or_breaks
    (fun session : Session ε => session.ledger.IsFrom (log.blockNumber + 1))
    (fun before after => ∃ ancestor, ancestor.number + 1 < log.blockNumber + 1 ∧
      before.ledger.RollsBack tree ancestor after.ledger)
    fills (fun _ _ writes => writes.keeps) ?asked reached isFrom
  case asked =>
    intro query before early answer after late accepted isFrom
    have passed : movement.besideBranching tree before early after late :=
      (movement.branching tree).asked accepted
    rw [ledger, passed.1.1.1]
    exact isFrom
  rcases kept with isFrom | ⟨before, after, earlier, step, since, ancestor, below, rolls⟩
  · exact absurd (isFrom.logs log member) (Nat.not_succ_le_self _)
  · exact .inr ⟨before, after, ancestor, earlier, step, since, rolls,
      Nat.lt_of_succ_lt_succ below⟩

end Session

/-! A session that starts in the middle of a branch, which the head then leaves for one that
parted from it farther down. -/

namespace Fork

def crossingAt (time : Nat) : Movement Nat :=
  .shallow tree (switch time (left 3) (right 3)) 4

theorem crossingAt_follows (time : Nat) :
    (Surroundings.scripted tree (crossingAt time).headOf).Follows
      ((crossingAt time).branching (ε := Entry) tree) := by
  have across : (Movement.shallow tree id 4).moves (left 3) (right 3) := by
    refine ⟨by decide +kernel, fun height below => ?_⟩
    have low : height + 4 ≤ 3 := below
    omega
  have follows := tree.scripted_follows (ε := Entry) (crossingAt time)
    (contains_switch (by decide +kernel) (by decide +kernel)) (shallow_switch across time)
  intro query session now answer after later answered
  refine ⟨follows query session now answer after later answered, ?_⟩
  cases answered
  exact id

def lateSetup : Setup :=
  { config := { maxBlockBacklog := 4, startBlock := some 3 } }

def lateSession : Session Entry where
  follower := .make 4 0 none
  entry := {}

end Fork

namespace Session

/-- A log of height 1 is stored, and so there was a rollback to the root. -/
theorem logs_below_start_follow_rollback_at_fork :
    let begun : Situation (Session Entry) Nat Unit :=
      ⟨serve Fork.lateSetup [.sync 20, .sync 20], Fork.lateSession, 0⟩
    ∃ before after ancestor,
      Situation.Reaches ((Fork.crossingAt 24).branching Fork.tree) begun before ∧
      Situation.Step ((Fork.crossingAt 24).branching Fork.tree) before after ∧
      before.state.ledger.RollsBack Fork.tree ancestor after.state.ledger ∧
      ancestor.number < 1 := by
  intro begun
  have reached := Routine.ends_run (Fork.crossingAt_follows 24)
    (serve Fork.lateSetup [.sync 20, .sync 20]) Fork.lateSession 0
  have stored : Fork.logOf (Fork.right 1) ∈ ((serve Fork.lateSetup [.sync 20, .sync 20]).run
      (.scripted Fork.tree (Fork.crossingAt 24).headOf) Fork.lateSession 0).2.1.entry.logs := by
    decide +kernel
  rcases logs_below_start_follow_rollback Fork.lateSetup [.sync 20, .sync 20] (Fork.crossingAt 24)
    0 rfl rfl (Follower.isHonest_make Fork.tree 4 0 none) (Follower.partsBranches_make 4 0 none)
    reached (Fork.logOf (Fork.right 1)) stored with
    isAbove | ⟨before, after, ancestor, earlier, step, -, rolls, below⟩
  · exact absurd isAbove (by decide)
  · exact ⟨before, after, ancestor, earlier, step, rolls, below⟩

/-- So a log from below the start block may be stored. -/
theorem log_below_start_stored_at_fork :
    Fork.lateSetup.config.startBlock = some 3 ∧ Fork.lateSession.entry = {} ∧
      ∃ outcome after later, (serve Fork.lateSetup [.sync 20, .sync 20]).Ends
        ((Fork.crossingAt 24).branching Fork.tree) Fork.lateSession 0 outcome after later ∧
          ∃ log ∈ after.entry.logs, log.blockNumber < 3 := by
  refine ⟨rfl, rfl, _, _, _, Routine.ends_run (Fork.crossingAt_follows 24) _ _ _, ?_⟩
  exact ⟨Fork.logOf (Fork.right 1), by decide +kernel, by decide⟩

end Session

end ReorgSync
