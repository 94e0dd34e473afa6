import ReorgSync.Proofs.Sync.Backfill
import ReorgSync.Sync.Catchup

namespace ReorgSync

/-! Every part of a session keeps an entry matching while reorganisations are
shallow, and so does any sequence of synchronisations and live loops, however each
of them ends. -/

/-- A session whose entry matches, and that looks deep enough for shallow
reorganisations. -/
structure Session.IsReady (session : Session Entry) (tree : BlockTree) (filter : Filter)
    (backlog : Nat) : Prop extends session.IsSound tree filter where
  deep : backlog ≤ session.follower.backlog

/-! ## Displaced blocks

Where a round begins, the chain is asked for the position of the entry. Until the first range
behind it is answered, the chain may be another one. -/

/-- A range that was stored behind a block, and what was looked up in front of it. -/
structure Displacement where
  /-- The height that was looked up, what was found there, and the head at that time. -/
  level : Nat
  canonical : Block
  checked : Block
  /-- The block in front of the range. -/
  stored : Block
  final : Nat
  /-- The head when the logs of the range were given. -/
  ranged : Block
  /-- The block that ended the range, and the head when it was given. -/
  block : Block
  named : Block

/-- The block in front of the range was on the chain that was looked up, where it was not
settled yet, and the chain that answered the range has other logs up to its height. -/
structure Displacement.IsNoted (displacement : Displacement) (tree : BlockTree) (filter : Filter)
    (backlog : Nat) (noted : List Note) : Prop where
  inRow : .block displacement.level (some displacement.canonical) displacement.checked ::
    Note.ofRange (displacement.stored.number + 1) displacement.final displacement.ranged
      displacement.block displacement.named <:+: noted
  within : displacement.stored.number ≤ displacement.level
  wasOnPath : displacement.stored ∈ tree.path displacement.checked
  unsettled : displacement.checked.number < displacement.stored.number + backlog
  apart : tree.logsAlong filter
      ((tree.path displacement.ranged).take (displacement.stored.number + 1)) ≠
    tree.logsAlong filter (tree.path displacement.stored)

/-- A stored block was displaced between the check of the position and the first range. -/
def IsDisplaced (tree : BlockTree) (filter : Filter) (backlog : Nat) (noted : List Note) : Prop :=
  ∃ displacement : Displacement, displacement.IsNoted tree filter backlog noted

/-- The chain that was looked up last, not below the block that an entry ends at, held that
block. -/
inductive Vouched (tree : BlockTree) (backlog : Nat) (head : Block) (noted : List Note) :
    Option Block → Prop
  | nothing : Vouched tree backlog head noted none
  | lookedUp {level : Nat} {canonical checked stored : Block}
      (isLast : [.block level (some canonical) checked] <:+ noted)
      (within : stored.number ≤ level) (contains : tree.Contains checked)
      (onPath : stored ∈ tree.path checked)
      (moves : (Movement.shallow tree id backlog).moves checked head) :
      Vouched tree backlog head noted (some stored)

section

variable {tree : BlockTree} {filter : Filter} {backlog : Nat} {head : Block}
  {before noted more : List Note}

theorem IsDisplaced.mono (displaced : IsDisplaced tree filter backlog noted)
    (grows : noted <+: more) : IsDisplaced tree filter backlog more := by
  rcases displaced with ⟨displacement, isNoted⟩
  exact ⟨displacement, { isNoted with inRow := isNoted.inRow.trans grows.isInfix }⟩

/-- Behind a block that was looked up, a backfill is only misled if the block is displaced. -/
theorem Vouched.displaced {entry : Entry} (vouched : Vouched tree backlog head before entry.lastBlock)
    (misled : entry.IsMisled tree filter backlog head before noted) :
    IsDisplaced tree filter backlog noted := by
  rcases misled with ⟨final, ranged, block, named, isPrefix, ⟨contained, movesThen⟩, apart⟩
  cases ends : entry.lastBlock with
  | none =>
      refine absurd (fun last isLast => ?_) apart
      cases ends.symm.trans isLast
  | some stored =>
      rw [ends] at vouched isPrefix
      cases vouched with
      | @lookedUp level canonical checked _ isLast within contains onPath moves =>
          have differs : tree.logsAlong filter ((tree.path ranged).take (stored.number + 1)) ≠
              tree.logsAlong filter (tree.path stored) := by
            refine fun same => apart fun last isStored => ?_
            cases ends.symm.trans isStored
            exact same
          refine ⟨⟨level, canonical, checked, stored, final, ranged, block, named⟩, ?_, within, onPath,
            ?_, differs⟩
          · rcases isLast with ⟨front, rfl⟩
            rcases isPrefix with ⟨rest, rfl⟩
            refine ⟨front, rest, ?_⟩
            simp only [List.append_assoc, List.cons_append, List.nil_append]
            rfl
          · refine Nat.lt_of_not_le fun settled => differs ?_
            have stays := ((Movement.shallow tree id backlog).trans moves movesThen).2 _ settled
            have found := stays.trans ((BlockTree.mem_path_iff contains).mp onPath)
            rw [(BlockTree.path_of_getElem? contained found).2.2]

end

namespace Session

open Routine (Keeps Quietly)

variable {tree : BlockTree} {filter : Filter} {headOf : ω → Block} {backlog : Nat}
  {notes : ω → List Note} {barred : ω → Prop} {session after : Session Entry} {world later : ω}
  {last : Block}

theorem IsReady.soundly (ready : session.IsReady tree filter backlog)
    (passed : (Movement.shallow tree headOf backlog).soundly tree filter session world after
      later) :
    after.IsReady tree filter backlog where
  entry := passed.1 ready.entry
  follower := passed.2.1.honest ready.follower
  deep := by
    rw [passed.2.1.backlog]
    exact ready.deep

/-- Work that stores nothing leaves the entry as it was. -/
theorem continuesSoundly_of_quietly {routine : Routine (Session Entry) α}
    {found : α → Session Entry → ω → Prop}
    (quietly : routine.Quietly ((Movement.shallow tree headOf backlog).conduct tree)
      ((Movement.shallow tree headOf backlog).besideStore tree) found session world) :
    ContinuesSoundly tree filter headOf backlog notes barred (fun value after later =>
      after.entry = session.entry ∧ found value after later) routine session world :=
  ((quietly_barring quietly).keeps (fun _ _ => sparing_soundly) fun _ _ => sparing_soundly).weaken
    (fun _ _ _ holds => ⟨sparing_soundly holds.1, holds.1.1.1.1, holds.2⟩) fun _ _ holds => holds

theorem continuesSoundly_of_soundly {routine : Routine (Session Entry) α}
    {found : α → Session Entry → ω → Prop}
    (quietly : routine.Quietly ((Movement.shallow tree headOf backlog).conduct tree)
      ((Movement.shallow tree headOf backlog).soundly tree filter) found session world) :
    ContinuesSoundly tree filter headOf backlog notes barred found routine session world :=
  (quietly.mono_conduct fun _ _ _ _ _ _
    (accepted : (Movement.shallow tree headOf backlog).noting tree notes _ _ _ _ _ _) =>
      accepted.1).barring

theorem continuesSoundly_of_staysSound {routine : Routine (Session Entry) α}
    {met found : α → Session Entry → ω → Prop}
    (keeps : StaysSound tree filter (Movement.shallow tree headOf backlog) session world met
      routine session world)
    (meets : ∀ value after later, met value after later →
      (Movement.shallow tree headOf backlog).soundly tree filter session world after later ∧
        found value after later) :
    ContinuesSoundly tree filter headOf backlog notes barred found routine session world :=
  continuesSoundly_of_soundly
    (Keeps.weaken keeps meets fun _ _ => Movement.soundly_of_besideStore)

theorem Reached.ends {movement : Movement ω} {last? : Option Block} {reached : Block}
    (holds : Reached tree filter movement session world last? reached after later)
    (ends : session.entry.lastBlock = last?) :
    movement.soundly tree filter session world after later ∧
      after.entry.lastBlock = some reached := by
  rcases holds with ⟨passed, same⟩ | ⟨stores, passed⟩
  · refine ⟨Movement.soundly_of_besideStore passed, ?_⟩
    rw [passed.1.1, ends, same]
  · exact ⟨⟨fun _ => stores.entryMatches, passed⟩, stores.ends⟩

/-! ## The position -/

/-- The position that is answered was on the chain when that was looked up. -/
theorem keeps_vouched (contains : tree.Contains last) :
    (reconcilePosition last).Keeps
      (((Movement.shallow tree headOf backlog).noting tree notes).barring barred) (fun _ _ => True)
      (Outcome.Meets (fun ancestor _ later =>
        Vouched tree backlog (headOf later) (notes later) (some ancestor)) fun _ _ => True)
      session world := by
  apply Keeps.after_any
  intro head session world
  split
  case isTrue => trivial
  case isFalse =>
    refine ((quietly_noting (quietly_blockAt last.number) (records_blockAt last.number)).keeps
      (fun _ _ _ => trivial) fun _ _ _ => trivial).andThen ?_
    rintro canonical session world ⟨-, ⟨headContained, found⟩, -, noted⟩
    have isLast : [.block last.number (some canonical) (headOf world)] <:+ notes world :=
      ⟨_, noted.symm⟩
    have onPath := BlockTree.path_of_getElem? headContained found
    have member : canonical ∈ tree.path (headOf world) := List.mem_of_getElem? found
    split
    case isTrue same =>
      have isOne : canonical = last := BlockTree.eq_of_hash_eq onPath.1 contains same
      rw [isOne] at member
      exact .lookedUp isLast (Nat.le_refl _) headContained member
        ((Movement.shallow tree headOf backlog).refl world)
    case isFalse =>
      apply Keeps.get_andThen
      refine ((quietly_noting (storesNothing_commonAncestor _ _ contains
        (BlockTree.self_mem_path contains) headContained member)
        (unnoted_commonAncestor _ _ _ _ _)).keeps
          (fun _ _ _ => trivial) fun _ _ _ => trivial).andThen ?_
      rintro ancestor after later ⟨passed, ⟨onStored, onCanonical⟩, unnoted⟩
      have vouched : Vouched tree backlog (headOf later) (notes later) (some ancestor) := by
        rw [← show notes later = notes world from unnoted] at isLast
        exact .lookedUp isLast (BlockTree.number_le_of_mem_path contains onStored) headContained
          onCanonical passed.1.2.2
      refine .computes (.sum _ _) ?_ fun _ _ => trivial
      refine keeps_read (fun parts _ => ?_) fun _ => trivial
      exact keeps_stored (fun _ _ => vouched) fun _ => trivial

theorem continuesSoundly_reconcilePosition (ready : session.IsReady tree filter backlog)
    (ends : session.entry.lastBlock = some last) :
    ContinuesSoundly tree filter headOf backlog notes barred
      (fun ancestor after later => after.entry.lastBlock = some ancestor ∧
        Vouched tree backlog (headOf later) (notes later) (some ancestor))
      (reconcilePosition last) session world := by
  have contains := ((Entry.matches_of_lastBlock ends).mp ready.entry).1
  have sound : ContinuesSoundly tree filter headOf backlog notes barred
      (fun ancestor after _ => after.entry.lastBlock = some ancestor) (reconcilePosition last)
      session world :=
    continuesSoundly_of_staysSound (keeps_reconcilePosition ready.toIsSound ends)
      fun _ _ _ holds => holds.ends ends
  refine ((Keeps.and sound (keeps_vouched contains)).mono_invariant fun _ _ holds => holds.1).mono
    fun outcome after later holds => ?_
  cases outcome with
  | value ancestor => exact ⟨holds.1.1, holds.1.2, holds.2⟩
  | error error => exact holds.1
  | halted cause => exact holds.1

variable {setup : Setup} {turns : Nat}

theorem continuesSoundly_hotZone {last? : Option Block}
    (ready : session.IsReady tree setup.config.filter backlog)
    (ends : session.entry.lastBlock = last?) :
    ContinuesSoundly tree setup.config.filter headOf backlog notes barred
      (fun reached after _ => ∀ block, reached = some block → after.entry.lastBlock = some block)
      (hotZone setup.config turns (last?.elim 0 (·.number + 1)) last?) session world := by
  apply continuesSoundly_of_staysSound (keeps_hotZone turns ready.toIsSound ends)
  intro reached after later holds
  cases reached with
  | none =>
      refine ⟨Movement.soundly_of_besideStore holds, ?_⟩
      intro _ none
      cases none
  | some block =>
      have reached := Reached.ends holds ends
      refine ⟨reached.1, ?_⟩
      intro _ same
      cases same
      exact reached.2

/-! ## A round -/

/-- A ready session none of whose blocks was displaced yet. -/
structure IsSteady (session : Session Entry) (tree : BlockTree) (filter : Filter) (backlog : Nat)
    (noted : List Note) : Prop extends session.IsReady tree filter backlog where
  notYet : ¬ IsDisplaced tree filter backlog noted

/-- Work that keeps an entry matching as long as no block is displaced. -/
abbrev StaysOnPath (tree : BlockTree) (filter : Filter) (headOf : ω → Block) (backlog : Nat)
    (notes : ω → List Note) (found : α → Session Entry → ω → Prop)
    (routine : Routine (Session Entry) α) (session : Session Entry) (world : ω) : Prop :=
  ContinuesSoundly tree filter headOf backlog notes
    (fun world => IsDisplaced tree filter backlog (notes world)) found routine session world

theorem IsSteady.passed (steady : session.IsSteady tree filter backlog (notes world))
    (passed : sparing ((Movement.shallow tree headOf backlog).soundly tree filter)
      (fun world => IsDisplaced tree filter backlog (notes world)) session world after later) :
    after.IsSteady tree filter backlog (notes later) where
  toIsReady := steady.toIsReady.soundly passed.1
  notYet := passed.2 steady.notYet

theorem staysOnPath_origin (steady : session.IsSteady tree setup.config.filter backlog (notes world))
    (noStart : setup.config.startBlock = none) (noHints : setup.hasHints = false) :
    StaysOnPath tree setup.config.filter headOf backlog notes (fun position after later =>
      (after.entry.lastBlock = position.2 ∧ position.1 = position.2.elim 0 (·.number + 1)) ∧
        Vouched tree backlog (headOf later) (notes later) position.2)
      (origin setup) session world := by
  have read : EntryStore.lastBlock session.entry = .ok session.entry.lastBlock := rfl
  apply keeps_readEntry read
  cases ends : session.entry.lastBlock with
  | none =>
      have isStart : (start setup : Routine (Session Entry) Nat) = .done 0 := by
        rw [start, noStart, noHints]
        rfl
      rw [isStart]
      exact ⟨IsPassing.refl session world, ⟨ends, rfl⟩, .nothing⟩
  | some last =>
      apply Quietly.andThen (continuesSoundly_reconcilePosition steady.toIsReady ends)
      rintro ancestor after later _ ⟨isLast, vouched⟩
      apply Quietly.andThen (.computes (.sum _ _))
      rintro _ _ _ _ ⟨rfl, rfl, rfl⟩
      exact .done ⟨⟨isLast, rfl⟩, vouched⟩

theorem staysOnPath_round (steady : session.IsSteady tree setup.config.filter backlog (notes world))
    (noStart : setup.config.startBlock = none) (noHints : setup.hasHints = false) :
    StaysOnPath tree setup.config.filter headOf backlog notes
      (fun reached after _ => ∀ block, reached = some block → after.entry.lastBlock = some block)
      (round setup turns) session world := by
  apply Quietly.andThen (staysOnPath_origin steady noStart noHints)
  rintro ⟨origin, last?⟩ after later passed ⟨⟨ends, isOrigin⟩, vouched⟩
  have steady := steady.passed passed
  have filled : StaysOnPath tree setup.config.filter headOf backlog notes _
      (backfill setup.config turns origin last?) after later :=
    continuesSoundly_backfill ends isOrigin steady.entry steady.deep steady.notYet
      fun _ misled => Vouched.displaced (ends ▸ vouched) misled
  apply Quietly.andThen filled
  intro reached after later passed stands
  have steady := steady.passed passed
  cases reached with
  | none =>
      apply Quietly.done
      intro _ none
      cases none
  | some state =>
      have standsThen := stands state rfl
      dsimp only
      rw [standsThen.origin]
      exact continuesSoundly_hotZone steady.toIsReady standsThen.ends

theorem staysOnPath_rounds (left past : Nat)
    (steady : session.IsSteady tree setup.config.filter backlog (notes world))
    (noStart : setup.config.startBlock = none) (noHints : setup.hasHints = false) :
    StaysOnPath tree setup.config.filter headOf backlog notes
      (fun block after _ => after.entry.lastBlock = some block) (rounds setup turns left past)
      session world := by
  induction left generalizing past session world with
  | zero =>
      apply Quietly.andThen (staysOnPath_round steady noStart noHints)
      intro reached after later _ ends
      cases reached with
      | none => exact .fail
      | some block => exact .done (ends block rfl)
  | succ left induction =>
      apply Quietly.andThen (staysOnPath_round steady noStart noHints)
      intro reached after later passed ends
      cases reached with
      | some block => exact .done (ends block rfl)
      | none =>
          apply Quietly.andThen (.sleep)
          intro _ after later passedThen _
          exact induction (past + 1) (steady.passed (IsPassing.trans passed passedThen))

/-! ## A synchronisation -/

theorem continuesSoundly_identify :
    ContinuesSoundly tree filter headOf backlog notes barred (fun _ _ _ => True) identify session
      world := by
  apply Quietly.andThen (continuesSoundly_of_quietly (quietly_enter .preflight))
  intro _ session world _ _
  apply Quietly.andThen (continuesSoundly_of_quietly (quietly_call _))
  intro found session world _ _
  have isThere : StoresNothing tree (Movement.shallow tree headOf backlog) (fun _ => True)
      (blockOr "0" found) session world := quietly_blockOr fun _ _ => trivial
  apply Quietly.andThen (continuesSoundly_of_quietly isThere)
  intro genesis session world _ _
  apply Quietly.andThen (continuesSoundly_of_quietly (quietly_call _))
  intro chainId session world _ _
  have read : EntryStore.identity session.entry = .ok session.entry.identity := rfl
  apply keeps_readEntry read
  cases session.entry.identity with
  | none =>
      have small : sparing ((Movement.shallow tree headOf backlog).soundly tree filter) barred
          session world
          { session with entry :=
              { session.entry with identity := some ⟨chainId, genesis.hash⟩ } } world :=
        ⟨⟨fun entryMatches => entryMatches, IsPassing.refl session.follower world⟩,
          fun notYet => notYet⟩
      dsimp only
      rw [changeEntry]
      exact keeps_readEntry rfl ⟨small, small, trivial⟩
  | some recorded =>
      dsimp only
      split
      · exact Quietly.fail
      · split
        · exact Quietly.fail
        · exact Quietly.done trivial

theorem continuesSoundly_identifyOnce :
    ContinuesSoundly tree filter headOf backlog notes barred (fun _ _ _ => True) identifyOnce
      session world := by
  apply Quietly.get_andThen
  split
  · exact .done trivial
  · apply Quietly.andThen continuesSoundly_identify
    intro _ session world _ _
    have small : sparing ((Movement.shallow tree headOf backlog).soundly tree filter) barred session
        world { session with isIdentified := true } world :=
      ⟨⟨fun entryMatches => entryMatches, IsPassing.refl session.follower world⟩,
        fun notYet => notYet⟩
    apply Quietly.mono (.modify small)
    exact fun _ _ _ _ _ => trivial

theorem staysOnPath_catchUp
    (steady : session.IsSteady tree setup.config.filter backlog (notes world))
    (noStart : setup.config.startBlock = none) (noHints : setup.hasHints = false) :
    StaysOnPath tree setup.config.filter headOf backlog notes
      (fun block after _ => after.entry.lastBlock = some block) (catchUp setup turns)
      session world := by
  apply Quietly.andThen continuesSoundly_identifyOnce
  intro _ after later passed _
  exact staysOnPath_rounds _ _ (steady.passed passed) noStart noHints

theorem continuesSoundly_enter (phase : Phase) :
    ContinuesSoundly tree filter headOf backlog notes barred
      (fun _ after _ => after.entry = session.entry) (enter phase) session world :=
  (continuesSoundly_of_quietly (quietly_enter phase)).mono fun _ _ _ _ holds => holds.1

theorem continuesSoundly_concluding {work : Routine (Session Entry) α}
    {found : α → Session Entry → ω → Prop}
    (quietly : ContinuesSoundly tree filter headOf backlog notes barred found work session world) :
    ContinuesSoundly tree filter headOf backlog notes barred found (concluding work) session
      world := by
  apply Quietly.andThen (.attempt quietly)
  intro outcome after later _ holds
  cases outcome with
  | ok value => exact .done holds
  | error error =>
      apply Quietly.andThen (continuesSoundly_enter (phaseAfter error))
      intro _ after later _ _
      exact .fail

end Session

end ReorgSync
