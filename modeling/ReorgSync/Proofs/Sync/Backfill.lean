import Mathlib.Data.List.Infix
import ReorgSync.Proofs.Sync.Arithmetic
import ReorgSync.Proofs.Sync.Notes

namespace ReorgSync

/-! A backfill asks for the logs of ranges of heights, and a node answers them from
the chain that is canonical at that moment. What is stored of a range matches exactly if
that chain continues the entry. While reorganisations are shallow, only the first range of a
backfill can come from another chain: in front of any other one stands a settled block. -/

/-- A backfill goes on behind the block that the entry ends at. -/
structure Backfill.StandsAt (state : Backfill) (entry : Entry) : Prop where
  ends : entry.lastBlock = state.last
  origin : state.origin = state.last.elim 0 (·.number + 1)

/-- Behind an entry, the first range of a backfill was stored, and the chain that answered it
does not continue the entry. The head had only moved on shallowly until then. -/
def Entry.IsMisled (entry : Entry) (tree : BlockTree) (filter : Filter) (backlog : Nat)
    (head : Block) (before noted : List Note) : Prop :=
  ∃ final ranged block named,
    before ++ Note.ofRange (entry.lastBlock.elim 0 (·.number + 1)) final ranged block named
      <+: noted ∧
    (tree.Contains ranged ∧ (Movement.shallow tree id backlog).moves head ranged) ∧
      ¬ entry.IsContinuedBy tree filter ranged

/-- A backfill still stands where it began, or behind a block that is settled. -/
inductive Backfill.IsAnchored (tree : BlockTree) (backlog : Nat) (begun : Option Block)
    (before : List Note) (state : Backfill) (head : Block) (noted : List Note) : Prop
  | begun (isLast : state.last = begun) (isVerified : state.isVerified = true)
      (unnoted : noted = before)
  | settled (stored : Block) (isLast : state.last = some stored)
      (onPath : (tree.path head)[stored.number]? = some stored)
      (deep : stored.number + backlog ≤ head.number)

namespace Backfill.IsAnchored

variable {tree : BlockTree} {backlog : Nat} {begun : Option Block} {before noted : List Note}
  {state : Backfill} {head next : Block}

/-- A settled block stays, whatever is noted. -/
theorem moved (anchored : state.IsAnchored tree backlog begun before head noted)
    (moves : (Movement.shallow tree id backlog).moves head next) (later : List Note)
    (unnoted : state.isVerified = true → later = noted) :
    state.IsAnchored tree backlog begun before next later := by
  cases anchored with
  | begun isLast isVerified same => exact .begun isLast isVerified ((unnoted isVerified).trans same)
  | settled stored isLast onPath deep =>
      exact .settled stored isLast ((moves.2 stored.number deep).trans onPath)
        (Nat.le_trans deep moves.1)

theorem verify (anchored : state.IsAnchored tree backlog begun before head noted) :
    { state with isVerified := true : Backfill }.IsAnchored tree backlog begun before head
      noted := by
  cases anchored with
  | begun isLast isVerified same => exact .begun isLast rfl same
  | settled stored isLast onPath deep => exact .settled stored isLast onPath deep

theorem shrink (anchored : state.IsAnchored tree backlog begun before head noted) :
    state.shrink.IsAnchored tree backlog begun before head noted := by
  cases anchored with
  | begun isLast isVerified same => exact .begun isLast isVerified same
  | settled stored isLast onPath deep => exact .settled stored isLast onPath deep

/-- In front of any range but the first stands a block of the chain that answers it. -/
theorem continued {filter : Filter} {entry first : Entry} {early ranged block named : Block}
    {rangeEnd : Nat}
    (anchored : state.IsAnchored tree backlog first.lastBlock before head noted)
    (stands : state.StandsAt entry) (contains : tree.Contains ranged)
    (since : (Movement.shallow tree id backlog).moves early head)
    (moves : (Movement.shallow tree id backlog).moves head ranged)
    (guided : ¬ first.IsMisled tree filter backlog early before
      (noted ++ Note.ofRange state.origin rangeEnd ranged block named)) :
    entry.IsContinuedBy tree filter ranged := by
  cases anchored with
  | begun isLast isVerified unnoted =>
      have same : entry.lastBlock = first.lastBlock := stands.ends.trans isLast
      by_contra apart
      refine guided ⟨rangeEnd, ranged, block, named, ?_,
        ⟨contains, (Movement.shallow tree id backlog).trans since moves⟩, fun continued => ?_⟩
      · rw [unnoted, ← same, stands.ends, stands.origin]
      · exact apart fun last ends => continued last (same.symm.trans ends)
  | settled stored isLast onPath deep =>
      intro other ends
      have same : some other = some stored :=
        (stands.ends.symm.trans ends).symm.trans isLast
      cases same
      have found := (moves.2 stored.number deep).trans onPath
      rw [(BlockTree.path_of_getElem? contains found).2.2]

end Backfill.IsAnchored

namespace Session

open Routine (Keeps Quietly)

variable {tree : BlockTree} {filter : Filter} {headOf : ω → Block} {backlog : Nat}
  {notes : ω → List Note} {barred : ω → Prop} {session after : Session Entry} {world later : ω}

/-! ## One range -/

variable {config : Config} {state : Backfill} {rangeEnd : Nat}

/-- What follows a range depends on what is stored with it, and that matches
exactly if the chain of the answer continues the entry. -/
theorem keeps_backfillRange {invariant stopped : Session Entry → ω → Prop}
    {met : Backfill → Session Entry → ω → Prop} (stands : state.StandsAt session.entry)
    (entryMatches : session.entry.Matches tree config.filter) (ordered : state.origin ≤ rangeEnd)
    (isSettled : rangeEnd + backlog ≤ (headOf world).number)
    (kept : ∀ after later,
      sparing ((Movement.shallow tree headOf backlog).besideStore tree) barred session world
        after later → invariant after later ∧ stopped after later)
    (refused : ∀ after later,
      sparing ((Movement.shallow tree headOf backlog).besideStore tree) barred session world
        after later → notes later = notes world → met state.shrink after later)
    (stores : ∀ now late ranged block,
      sparing ((Movement.shallow tree headOf backlog).besideStore tree) barred session world
        now late →
        notes late = notes world ++ Note.ofRange state.origin rangeEnd ranged block (headOf late) →
        (Movement.shallow tree id backlog).moves (headOf world) ranged →
        tree.Contains ranged → (tree.path (headOf late))[rangeEnd]? = some block →
        block.number = rangeEnd → ∀ after : Session Entry,
        (after.entry.Matches tree config.filter ↔
          session.entry.IsContinuedBy tree config.filter ranged) →
        after.entry.lastBlock = some block → after.follower = now.follower →
          invariant after late ∧ stopped after late ∧
            met (state.advance config block rangeEnd) after late) :
    (backfillRange config state rangeEnd).Keeps
      (((Movement.shallow tree headOf backlog).noting tree notes).barring barred) invariant
      (Outcome.Meets met stopped) session world := by
  have invariant_of := fun after later passed => (kept after later passed).1
  have stopped_of := fun after later passed => (kept after later passed).2
  have asked : Records tree headOf notes _ (fun _ => True)
      (Routine.ask (.cancelableNode (.logs ⟨config.filter, .range state.origin rangeEnd⟩))
        .done).guarded session world := records_reply trivial
  apply Quietly.andKeeps invariant_of stopped_of (IsPassing.refl session world)
    (quietly_noting Quietly.guarded_ask asked)
  rintro reply now late passed ⟨-, -, contains, truthful, noted⟩
  rcases reply with _ | error | logs
  · exact stopped_of now late passed
  · rw [Query.notes, Node.Call.notes_error, List.append_nil] at noted
    dsimp only
    split
    · exact refused now late passed noted
    · exact stopped_of now late passed
  · have rangeLogs : logs = tree.logsAlong config.filter ((tree.path (headOf late)).filter
        fun block => decide (state.origin ≤ block.number ∧ block.number ≤ rangeEnd)) := truthful
    have moves := passed.1.2.2
    have settledThen := moves.2 rangeEnd isSettled
    apply Quietly.andKeeps invariant_of stopped_of passed
      (quietly_noting (quietly_blockAt rangeEnd) (records_blockAt rangeEnd))
    rintro block after later passed ⟨-, found, notedThen⟩
    rw [noted, List.append_assoc] at notedThen
    -- The block is the one that ended the range, since it was settled before.
    have foundThen : (tree.path (headOf late))[rangeEnd]? = some block := by
      rw [settledThen, ← passed.1.2.2.2 rangeEnd isSettled]
      exact found
    have number := (BlockTree.path_of_getElem? contains foundThen).2.1
    have exactly : ∀ stored : Entry, stored.lastBlock = some block →
        stored.logs = session.entry.logs ++ logs →
          (stored.Matches tree config.filter ↔
            session.entry.IsContinuedBy tree config.filter (headOf late)) := by
      intro stored isLast storedLogs
      rw [rangeLogs] at storedLogs
      exact Entry.matches_append_range entryMatches stands.ends stands.origin ordered contains
        foundThen isLast storedLogs
    have logsSame : after.entry.logs ++ logs = session.entry.logs ++ logs := by
      rw [passed.1.1.1]
    have stored := fun events => stores after later (headOf late) block passed notedThen
      moves contains found number
      { after with
        entry := { after.entry with
          logs := after.entry.logs ++ logs
          lastBlock := some block }
        events } (exactly _ rfl logsSame) rfl rfl
    apply keeps_apply (Entry.apply_append _ logs block)
    · exact (stored after.events).1
    · exact (stored _).1
    · exact (Backfill.computes_checkAdvance _ _ _ _).keeps (stored _).2.2 fun _ => (stored _).2.1

/-! ## All ranges -/

/-- Work on a session while reorganisations are shallow and something does not happen, and
what holds of the session in the end. -/
abbrev ContinuesSoundly (tree : BlockTree) (filter : Filter) (headOf : ω → Block) (backlog : Nat)
    (notes : ω → List Note) (barred : ω → Prop) (found : α → Session Entry → ω → Prop)
    (routine : Routine (Session Entry) α) (session : Session Entry) (world : ω) : Prop :=
  routine.Quietly (((Movement.shallow tree headOf backlog).noting tree notes).barring barred)
    (sparing ((Movement.shallow tree headOf backlog).soundly tree filter) barred) found session
      world

/-- The same for work that is followed from an earlier moment on. -/
abbrev ContinuesSoundlyFrom (tree : BlockTree) (filter : Filter) (headOf : ω → Block)
    (backlog : Nat) (notes : ω → List Note) (barred : ω → Prop) (before : Session Entry) (early : ω)
    (found : α → Session Entry → ω → Prop) (routine : Routine (Session Entry) α)
    (session : Session Entry) (world : ω) : Prop :=
  routine.Keeps (((Movement.shallow tree headOf backlog).noting tree notes).barring barred)
    (sparing ((Movement.shallow tree headOf backlog).soundly tree filter) barred before early)
    (Outcome.Meets (fun value after later =>
        sparing ((Movement.shallow tree headOf backlog).soundly tree filter) barred before early
          after later ∧ found value after later)
      (sparing ((Movement.shallow tree headOf backlog).soundly tree filter) barred before early))
    session world

theorem sparing_soundly {before : Session Entry} {early : ω}
    (passed : sparing ((Movement.shallow tree headOf backlog).besideStore tree) barred before early
      after later) :
    sparing ((Movement.shallow tree headOf backlog).soundly tree filter) barred before early after
      later :=
  ⟨Movement.soundly_of_besideStore passed.1, passed.2⟩

/-- Work that stores nothing, in front of work that may store something. -/
theorem continuing_andThen {first : Routine (Session Entry) α}
    {second : α → Routine (Session Entry) β} {found noted : α → Session Entry → ω → Prop}
    {met : β → Session Entry → ω → Prop} {before : Session Entry} {early : ω}
    (passed : sparing ((Movement.shallow tree headOf backlog).besideStore tree) barred before early
      session world)
    (quietly : first.Quietly ((Movement.shallow tree headOf backlog).conduct tree)
      ((Movement.shallow tree headOf backlog).besideStore tree) found session world)
    (records : Records tree headOf notes noted (fun _ => True) first session world)
    (continues : ∀ value after later,
      sparing ((Movement.shallow tree headOf backlog).besideStore tree) barred before early after
        later →
        (Movement.shallow tree headOf backlog).moves world later →
        found value after later → noted value after later →
          ContinuesSoundlyFrom tree filter headOf backlog notes barred before early met
            (second value) after later) :
    ContinuesSoundlyFrom tree filter headOf backlog notes barred before early met
      (first >>= second) session world := by
  have quietlyThen : first.Quietly _
      (sparing ((Movement.shallow tree headOf backlog).besideStore tree) barred)
      (fun value after later => (Movement.shallow tree headOf backlog).moves world later ∧
        found value after later ∧ noted value after later) session world :=
    (quietly_noting quietly records).mono fun _ _ _ since holds => ⟨since.1.2.2, holds⟩
  apply quietlyThen.andKeeps (fun _ _ => sparing_soundly) (fun _ _ => sparing_soundly) passed
  rintro value after later passed ⟨moves, holds, notedThen⟩
  exact continues value after later passed moves holds notedThen

variable {begun : Entry} {before : List Note} {early : Block} {origin turns : Nat}
  {last? : Option Block}

/-- A block that was stored is looked up again, and the one that the backfill began behind
is not. -/
theorem records_isSettled_of_anchored (state : Backfill) :
    Records tree headOf notes (fun _ _ later => state.isVerified = true →
      notes later = notes world) (fun _ => True) (isSettled state) session world := by
  rw [isSettled]
  split
  case h_1 unverified _ =>
    refine Keeps.mono (Keeps.any _ session world) fun outcome _ _ _ => ?_
    cases outcome with
    | value value =>
        exact fun isVerified => absurd (unverified.symm.trans isVerified) Bool.false_ne_true
    | error error => exact trivial
    | halted cause => exact trivial
  case h_2 => exact fun _ => rfl

theorem continuesSoundly_backfillStep (stands : state.StandsAt session.entry)
    (entryMatches : session.entry.Matches tree config.filter)
    (deep : backlog ≤ session.follower.backlog)
    (anchored : state.IsAnchored tree backlog begun.lastBlock before (headOf world) (notes world))
    (since : (Movement.shallow tree id backlog).moves early (headOf world))
    (notYet : ¬ barred world)
    (misled : ∀ world, begun.IsMisled tree config.filter backlog early before (notes world) →
      barred world) :
    ContinuesSoundly tree config.filter headOf backlog notes barred (fun result after later =>
      match result with
      | .inl state => state.StandsAt after.entry ∧
          state.IsAnchored tree backlog begun.lastBlock before (headOf later) (notes later)
      | .inr reached => ∀ state, reached = some state → state.StandsAt after.entry)
      (backfillStep config state) session world := by
  apply continuing_andThen (IsPassing.refl session world) Quietly.checkCanceled
    (records_checkCanceled trivial)
  intro _ after later passed moves _ unnoted
  have anchored := anchored.moved moves (notes later) fun _ => unnoted.2
  apply continuing_andThen passed (storesNothing_isSettled state)
    (records_isSettled_of_anchored state)
  intro isSettled after later passed moves _ unnoted
  have anchored := anchored.moved moves (notes later) unnoted
  split
  case isFalse =>
    refine ⟨sparing_soundly passed, ?_⟩
    intro state none
    cases none
  case isTrue =>
    have sameBacklog := passed.1.2.1.backlog
    apply Keeps.get_andThen
    rw [sameBacklog]
    apply continuing_andThen passed (quietly_call .height) (records_answer .height)
    rintro head after later passed moves ⟨contains, isHead⟩ ⟨-, noted⟩
    have unnoted : notes later = _ := noted.trans (List.append_nil _)
    have anchored := anchored.verify.moved moves (notes later) fun _ => unnoted
    have standsThen : { state with isVerified := true : Backfill }.StandsAt after.entry := by
      rw [passed.1.1.1]
      exact ⟨stands.ends, stands.origin⟩
    refine .computes (Backfill.computes_checkNear _ _ _) ?_ fun _ _ => sparing_soundly passed
    split
    case isTrue =>
      refine ⟨sparing_soundly passed, ?_⟩
      intro _ same
      cases same
      exact standsThen
    case isFalse far =>
      have same : head = (headOf later).number := isHead
      have bounded : head < Word.size 64 := by
        rw [same]
        exact Nat.lt_of_succ_lt (tree.height_lt contains)
      rcases Backfill.rangeEnd_settled far bounded with ⟨ordered, isBelow⟩
      apply continuing_andThen passed (quietly_enter .backfilling) (records_enter .backfilling)
      intro _ ready late entered moves sameTime unnoted
      have anchored := anchored.moved moves (notes late) fun _ => unnoted.2
      refine .computes (Backfill.computes_checkEnd _ _ _) ?_ fun _ _ => sparing_soundly entered
      have readyStands : { state with isVerified := true : Backfill }.StandsAt ready.entry := by
        rw [entered.1.1.1]
        exact ⟨stands.ends, stands.origin⟩
      have readyMatches : ready.entry.Matches tree config.filter := by
        rw [entered.1.1.1]
        exact entryMatches
      have settled : { state with isVerified := true : Backfill }.rangeEnd head
          session.follower.backlog + backlog ≤ (headOf late).number := by
        rw [sameTime]
        exact Nat.le_trans (Nat.add_le_add_left deep _) (Nat.le_trans isBelow (Nat.le_of_eq same))
      have kept : ContinuesSoundlyFrom tree config.filter headOf backlog notes barred session world
          (fun state next now => state.StandsAt next.entry ∧
            state.IsAnchored tree backlog begun.lastBlock before (headOf now) (notes now))
          (backfillRange config { state with isVerified := true }
            ({ state with isVerified := true : Backfill }.rangeEnd head session.follower.backlog))
          ready late := by
        apply keeps_backfillRange readyStands readyMatches ordered settled
        · intro next late passedThen
          have passedNow := IsPassing.trans entered passedThen
          exact ⟨sparing_soundly passedNow, sparing_soundly passedNow⟩
        · intro next now passedThen unnoted
          have passedNow := IsPassing.trans entered passedThen
          refine ⟨sparing_soundly passedNow, ?_,
            (anchored.moved passedThen.1.2.2 (notes now) fun _ => unnoted).shrink⟩
          rw [passedNow.1.1.1]
          exact ⟨stands.ends, stands.origin⟩
        · intro next now ranged block passedThen noted movesThen contains onPath number
            stored exactly isLast follower
          have passedNow := IsPassing.trans entered passedThen
          have continued : ready.entry.IsContinuedBy tree config.filter ranged :=
            anchored.continued readyStands contains
              ((Movement.shallow tree id backlog).trans since entered.1.2.2) movesThen
              fun isMisled => passedNow.2 notYet (misled now (noted ▸ isMisled))
          have sound : sparing ((Movement.shallow tree headOf backlog).soundly tree config.filter)
              barred session world stored now := by
            refine ⟨⟨fun _ => exactly.mpr continued, ?_⟩, passedNow.2⟩
            rw [follower]
            exact passedNow.1.2
          have deepThen : block.number + backlog ≤ (headOf now).number := by
            rw [number]
            exact Nat.le_trans settled passedThen.1.2.2.1
          rw [← number] at onPath
          exact ⟨sound, sound, sound, ⟨isLast, congrArg (· + 1) number.symm⟩,
            .settled block rfl onPath deepThen⟩
      exact kept.andThen fun _ _ _ holds => holds

/-- A backfill keeps an entry matching unless it is misled, and stands where the entry
ends. -/
theorem continuesSoundly_backfill (ends : session.entry.lastBlock = last?)
    (isOrigin : origin = last?.elim 0 (·.number + 1))
    (entryMatches : session.entry.Matches tree config.filter)
    (deep : backlog ≤ session.follower.backlog) (notYet : ¬ barred world)
    (misled : ∀ later, session.entry.IsMisled tree config.filter backlog (headOf world)
      (notes world) (notes later) → barred later) :
    ContinuesSoundly tree config.filter headOf backlog notes barred (fun reached after _ =>
      ∀ state, reached = some state → state.StandsAt after.entry)
      (backfill config turns origin last?) session world := by
  refine Quietly.iterate (fun state after later =>
    (state.StandsAt after.entry ∧ state.IsAnchored tree backlog session.entry.lastBlock
      (notes world) (headOf later) (notes later)) ∧
    after.entry.Matches tree config.filter ∧ backlog ≤ after.follower.backlog ∧
      (Movement.shallow tree headOf backlog).moves world later ∧ ¬ barred later) ?_ turns _
    ⟨⟨⟨ends, isOrigin⟩, .begun ends.symm rfl rfl⟩, entryMatches, deep,
      (Movement.shallow tree headOf backlog).refl world, notYet⟩
  intro state now late holds
  rcases holds with ⟨⟨stands, anchored⟩, entryMatches, deep, since, notYet⟩
  apply (continuesSoundly_backfillStep stands entryMatches deep anchored since notYet misled).mono
  intro result after later passed holds
  cases result with
  | inl state =>
      refine ⟨holds, passed.1.1 entryMatches, ?_,
        (Movement.shallow tree headOf backlog).trans since passed.1.2.2, passed.2 notYet⟩
      rw [passed.1.2.1.backlog]
      exact deep
  | inr reached => exact holds

end Session

end ReorgSync
