import ReorgSync.Proofs.Sync.Identity

namespace ReorgSync

/-! What the phase of a session tells of its calls. A call that fails or is canceled leaves
its own phase behind, and so does one that does any work. But a synchronisation that finds
nothing to store may enter no phase at all; what it leaves is the phase of an earlier call. -/

namespace Phase

/-- The phases that a synchronisation goes through. -/
def IsWorking : Phase → Prop
  | .preflight => True
  | .backfilling => True
  | .hotZone => True
  | _ => False

theorem IsWorking.ne_stopped {phase : Phase} (working : phase.IsWorking) : phase ≠ .stopped := by
  rintro rfl
  exact working

theorem IsWorking.ne_error {phase : Phase} (working : phase.IsWorking) : phase ≠ .error := by
  rintro rfl
  exact working

end Phase

/-- The event takes logs back and adds none. -/
structure Event.IsCut (event : Event) : Prop where
  added : event.added = []
  truncateTo : event.truncateTo.isSome = true

namespace Session

open Routine (OnlyWrites Quietly)

variable {ε ω : Type} {session before between after : Session ε} {world : ω}

/-! ## What happens to a phase -/

/-- What only the session itself changes stays as it is. -/
structure KeepsOwn (before after : Session ε) : Prop where
  events : after.events = before.events
  phase : after.phase = before.phase
  isIdentified : after.isIdentified = before.isIdentified

/-- Others may use the follower and the store, with any effect. -/
def besideOwn (before : Session ε) (_ : ω) (after : Session ε) (_ : ω) : Prop :=
  KeepsOwn before after

/-- No phase is entered, and nothing is published but cuts. -/
structure Idles (before after : Session ε) : Prop where
  phase : after.phase = before.phase
  isIdentified : after.isIdentified = before.isIdentified
  events : ∃ cuts, after.events = before.events.publishAll cuts ∧ ∀ cut ∈ cuts, cut.IsCut

theorem KeepsOwn.idles (keeps : KeepsOwn before after) : Idles before after where
  phase := keeps.phase
  isIdentified := keeps.isIdentified
  events := ⟨[], keeps.events, nofun⟩

theorem Idles.trans (earlier : Idles before between) (later : Idles between after) :
    Idles before after where
  phase := later.phase.trans earlier.phase
  isIdentified := later.isIdentified.trans earlier.isIdentified
  events := by
    rcases earlier.events with ⟨front, published, frontCuts⟩
    rcases later.events with ⟨back, publishedThen, backCuts⟩
    refine ⟨front ++ back, ?_, fun cut member => ?_⟩
    · rw [publishedThen, published, Feed.publishAll_append]
    · exact (List.mem_append.mp member).elim (frontCuts cut) (backCuts cut)

/-- A session is at work, or idle so far. -/
def Engages (before : Session ε) (_ : ω) (after : Session ε) (_ : ω) : Prop :=
  after.phase.IsWorking ∨ Idles before after

/-- Work goes on until a call ends. -/
theorem Engages.isWorking {world later : ω} (engages : Engages before world after later)
    (working : before.phase.IsWorking) : after.phase.IsWorking := by
  rcases engages with working | idles
  · exact working
  · rw [idles.phase]
    exact working

instance : IsPassing (Engages (ε := ε) (ω := ω)) where
  refl _ _ := .inr (KeepsOwn.idles ⟨rfl, rfl, rfl⟩)
  trans earlier later := by
    rcases later with working | idles
    · exact .inl working
    · rcases earlier with working | idledBefore
      · rw [Engages, idles.phase]
        exact .inl working
      · exact .inr (idledBefore.trans idles)

instance : (Conduct.free (besideOwn (ε := ε) (ω := ω))).Within Engages where
  asked keeps := .inr (KeepsOwn.idles keeps)

/-- Work of a synchronisation, with what holds if it ends with a value. -/
abbrev Engaging (found : α → Session ε → ω → Prop) (routine : Routine (Session ε) α)
    (session : Session ε) (world : ω) : Prop :=
  routine.Quietly (Conduct.free besideOwn) Engages found session world

end Session

theorem Routine.OnlyWrites.engages {ε ω : Type} {session : Session ε} {world : ω}
    {routine : Routine (Session ε) α} (only : routine.OnlyWrites Session.KeepsOwn session) :
    Session.Engaging (fun _ _ _ => True) routine session world :=
  only.quietly fun _ _ _ keeps => .inr keeps.idles

namespace Session

open Routine (OnlyWrites Quietly Keeps)

variable {ε ω : Type} {session : Session ε} {world : ω}

/-! ## Calls one after another -/

/-- A call that has ended, with the session before and after it. -/
structure PastCall (ε : Type) where
  job : Job
  before : Session ε
  outcome : Outcome Unit
  after : Session ε

namespace PastCall

/-- The call was ended by cancellation, which is how a run ends without an error. -/
def isCanceled (call : PastCall ε) : Bool :=
  match call.outcome, call.job with
  | .error error, _ => error.isCanceled
  | .value (), .run _ => true
  | _, _ => false

/-- The call was ended by any other error. -/
def hasFailed (call : PastCall ε) : Bool :=
  match call.outcome with
  | .error error => !error.isCanceled
  | _ => false

/-- The phase tells how the call ended. -/
def IsReported (call : PastCall ε) : Prop :=
  (call.after.phase = .stopped ↔ call.isCanceled = true) ∧
    (call.after.phase = .error ↔ call.hasFailed = true)

/-- A synchronisation of a chain that was identified before, which found nothing to do but
to take logs back. -/
structure IsIdle (call : PastCall ε) : Prop where
  synchronised : ∃ turns, call.job = .sync turns ∧ call.outcome = .value ()
  isIdentified : call.before.isIdentified = true
  idles : Idles call.before call.after

theorem IsIdle.not_isCanceled {call : PastCall ε} (idle : call.IsIdle) :
    call.isCanceled = false := by
  rcases idle.synchronised with ⟨turns, isSync, succeeded⟩
  rw [isCanceled, isSync, succeeded]

theorem IsIdle.not_hasFailed {call : PastCall ε} (idle : call.IsIdle) :
    call.hasFailed = false := by
  rcases idle.synchronised with ⟨turns, -, succeeded⟩
  rw [hasFailed, succeeded]

/-- A call that was idle tells nothing of itself by the phase of another. -/
theorem IsIdle.isReported_iff {call : PastCall ε} (idle : call.IsIdle) :
    call.IsReported ↔ ¬ (call.before.phase = .stopped ∨ call.before.phase = .error) := by
  rw [IsReported, idle.idles.phase, idle.not_isCanceled, idle.not_hasFailed]
  simp

theorem isReported_of_error {call : PastCall ε} {error : SyncError}
    (failed : call.outcome = .error error) (left : call.after.phase = phaseAfter error) :
    call.IsReported := by
  rw [IsReported, isCanceled, hasFailed, left, failed, phaseAfter]
  cases isCanceled : error.isCanceled <;> simp [isCanceled]

/-- A call that was made in given surroundings. -/
def ofRun [EntryStore ε] (surroundings : Surroundings (Session ε) ω) (setup : Setup)
    (session : Session ε) (world : ω) (job : Job) : PastCall ε :=
  let ended := (job.call setup).run surroundings session world
  ⟨job, session, ended.1, ended.2.1⟩

end PastCall

/-- The last call that was not idle is of a kind. -/
def LastOf (kind : PastCall ε → Bool) (calls : List (PastCall ε)) : Prop :=
  ∃ front call back, calls = front ++ call :: back ∧ kind call = true ∧ ∀ idle ∈ back, idle.IsIdle

theorem lastOf_concat {kind : PastCall ε → Bool} {calls : List (PastCall ε)} {last : PastCall ε} :
    LastOf kind (calls ++ [last]) ↔ kind last = true ∨ last.IsIdle ∧ LastOf kind calls := by
  constructor
  · rintro ⟨front, call, back, split, isKind, idles⟩
    rcases List.eq_nil_or_concat back with rfl | ⟨init, final, rfl⟩
    · rcases List.append_inj' split rfl with ⟨-, same⟩
      cases same
      exact .inl isKind
    · have whole : calls ++ [last] = (front ++ call :: init) ++ [final] := by simpa using split
      rcases List.append_inj' whole rfl with ⟨rfl, same⟩
      cases same
      exact .inr ⟨idles last (by simp), front, call, init, rfl, isKind,
        fun idle member => idles idle (by simp [member])⟩
  · rintro (isKind | ⟨idle, front, call, back, rfl, isKind, idles⟩)
    · exact ⟨calls, last, [], rfl, isKind, List.forall_mem_nil _⟩
    · refine ⟨front, call, back ++ [last], by simp, isKind, fun later member => ?_⟩
      rcases List.mem_append.mp member with member | member
      · exact idles later member
      · rw [List.mem_singleton.mp member]
        exact idle

theorem not_lastOf_nil {kind : PastCall ε → Bool} : ¬ LastOf kind [] := by
  rintro ⟨front, call, back, split, -⟩
  simp at split

/-! ## Parts of a synchronisation -/

theorem engaging_enter {phase : Phase} (working : phase.IsWorking) :
    Engaging (fun _ after _ => after.phase.IsWorking) (enter phase) session world := by
  refine (Quietly.modify (.inl working)).mono fun _ after later _ entered => ?_
  rw [entered.1]
  exact working

variable [EntryStore ε]

/-- A session that is not at work publishes nothing but cuts. -/
theorem engaging_apply {event : Event} (allowed : session.phase.IsWorking ∨ event.IsCut) :
    Engaging (fun _ _ _ => True) (Session.apply event) session world := by
  rw [Session.apply, changeEntry, bind_assoc]
  change Engaging _ (Routine.ofExcept (EntryStore.apply session.entry event) >>= _) session world
  cases EntryStore.apply session.entry event with
  | error error => exact .fail
  | ok entry =>
      refine .write (.inr (KeepsOwn.idles ⟨rfl, rfl, rfl⟩)) (.write ?_ (.done trivial))
      rcases allowed with working | isCut
      · exact .inl working
      · exact .inr ⟨rfl, rfl, [event], rfl, fun cut member => by rwa [List.mem_singleton.mp member]⟩

theorem engaging_reconcilePosition (last : Block) :
    Engaging (fun _ _ _ => True) (reconcilePosition last) session world := by
  refine .andThen (onlyWrites_call _).engages fun head after later _ _ => ?_
  split
  · exact .fail
  · refine .andThen (onlyWrites_blockAt _).engages fun canonical after later _ _ => ?_
    split
    · exact .done trivial
    · apply Quietly.get_andThen
      refine .andThen (onlyWrites_commonAncestor _ _ _ _ _).engages fun ancestor after later _ _ => ?_
      refine .andThen (OnlyWrites.computes (.sum _ _)).engages fun above after later _ _ => ?_
      refine .andThen (onlyWrites_readEntry _).engages fun parts after later _ _ => ?_
      exact .andThen (engaging_apply (.inr ⟨rfl, rfl⟩)) fun _ _ _ _ _ => .done trivial

theorem engaging_origin (setup : Setup) :
    Engaging (fun _ _ _ => True) (origin setup) session world := by
  refine .andThen (onlyWrites_readEntry _).engages fun last? after later _ _ => ?_
  cases last? with
  | some last =>
      refine .andThen (engaging_reconcilePosition last) fun ancestor after later _ _ => ?_
      exact .andThen (OnlyWrites.computes (.sum _ _)).engages fun _ _ _ _ _ => .done trivial
  | none => exact .andThen (onlyWrites_start setup).engages fun _ _ _ _ _ => .done trivial

theorem engaging_backfillRange (config : Config) (state : Backfill) (rangeEnd : Nat)
    (working : session.phase.IsWorking) :
    Engaging (fun _ _ _ => True) (backfillRange config state rangeEnd) session world := by
  refine .andThen (onlyWrites_reply _).engages fun reply after later passed _ => ?_
  have working := passed.isWorking working
  rcases reply with _ | error | logs
  · exact .fail
  · change Engaging _ (ite _ _ _) after later
    split
    · exact .done trivial
    · exact .fail
  · refine .andThen (onlyWrites_blockAt _).engages fun block after later passed _ => ?_
    refine .andThen (engaging_apply (.inl (passed.isWorking working))) fun _ _ _ _ _ => ?_
    exact (OnlyWrites.computes (Backfill.computes_checkAdvance _ _ _ _)).engages

theorem engaging_backfill (config : Config) (turns origin : Nat) (last : Option Block) :
    Engaging (fun _ _ _ => True) (backfill config turns origin last) session world := by
  refine .iterate (fun _ _ _ => True) (fun state session world _ => ?_) turns _ trivial
  refine .andThen (OnlyWrites.checkCanceled).engages fun _ after later _ _ => ?_
  refine .andThen (onlyWrites_isSettled state).engages fun settled after later _ _ => ?_
  cases settled with
  | false => exact .done trivial
  | true =>
      apply Quietly.get_andThen
      refine .andThen (onlyWrites_call _).engages fun head after later _ _ => ?_
      refine .andThen (OnlyWrites.computes (Backfill.computes_checkNear _ _ _)).engages
        fun isNear after later _ _ => ?_
      split
      · exact .done trivial
      · refine .andThen (engaging_enter trivial) fun _ after later _ working => ?_
        refine .andThen (OnlyWrites.computes (Backfill.computes_checkEnd _ _ _)).engages
          fun rangeEnd after later passed _ => ?_
        have working := passed.isWorking working
        exact .andThen (engaging_backfillRange config _ _ working) fun _ _ _ _ _ => .done trivial

theorem engaging_hotZone (config : Config) (turns origin : Nat) (last : Option Block) :
    Engaging (fun _ _ _ => True) (hotZone config turns origin last) session world := by
  refine .andThen (onlyWrites_refreshHead fun _ _ => ⟨rfl, rfl, rfl⟩).engages
    fun head after later _ _ => ?_
  split
  · cases last with
    | some last => exact .done trivial
    | none => exact .fail
  · refine .andThen (engaging_enter trivial) fun _ after later _ working => ?_
    refine .andThen (onlyWrites_descend turns origin head).engages fun run after later passed _ => ?_
    have working := passed.isWorking working
    dsimp only
    split
    · refine .andThen (onlyWrites_logsOfBlocks config _).engages fun logs after later passed _ => ?_
      refine .andThen (engaging_apply (.inl (passed.isWorking working))) fun _ _ _ _ _ => ?_
      exact .done trivial
    · exact .done trivial

variable {setup : Setup} {turns : Nat}

theorem engaging_round :
    Engaging (fun _ _ _ => True) (round setup turns) session world := by
  refine .andThen (engaging_origin setup) fun start after later _ _ => ?_
  refine .andThen (engaging_backfill _ _ _ _) fun reached after later _ _ => ?_
  cases reached with
  | none => exact .done trivial
  | some reached => exact engaging_hotZone _ _ _ _

theorem engaging_rounds (left past : Nat) :
    Engaging (fun _ _ _ => True) (rounds setup turns left past) session world := by
  induction left generalizing past session world with
  | zero =>
      refine .andThen engaging_round fun block after later _ _ => ?_
      cases block with
      | some block => exact .done trivial
      | none => exact .fail
  | succ left induction =>
      refine .andThen engaging_round fun block after later _ _ => ?_
      cases block with
      | some block => exact .done trivial
      | none => exact .andThen .sleep fun _ _ _ _ _ => induction (past + 1)

theorem onlyWrites_settleIdentity (actual : ChainIdentity) :
    (settleIdentity actual).OnlyWrites KeepsOwn session := by
  refine .andThen (onlyWrites_readEntry _) fun recorded? after => ?_
  cases recorded? with
  | none => exact .andThen (onlyWrites_readEntry _) fun entry after => .modify ⟨rfl, rfl, rfl⟩
  | some recorded =>
      dsimp only
      split
      · trivial
      · split <;> trivial

/-- The preflight is a phase of its own. -/
theorem engaging_identify :
    Engaging (fun _ after _ => after.phase.IsWorking) identify session world := by
  rw [identify_eq]
  refine .andThen (engaging_enter trivial) fun _ after later _ working => ?_
  have settles : Engaging (fun _ _ _ => True) (do
      let genesis ← blockOr "0" (← call (.blockByTag (.number 0)))
      let chainId ← call .chainId
      settleIdentity ⟨chainId, genesis.hash⟩) after later := by
    apply OnlyWrites.engages
    refine .andThen (onlyWrites_call _) fun found _ => ?_
    refine .andThen (onlyWrites_blockOr _ _) fun genesis _ => ?_
    exact .andThen (onlyWrites_call _) fun chainId _ => onlyWrites_settleIdentity _
  exact settles.mono fun _ _ _ passed _ => passed.isWorking working

/-- A session that has not identified the chain is at work from here on. -/
theorem engaging_identifyOnce :
    Engaging (fun _ after _ => session.isIdentified = false → after.phase.IsWorking) identifyOnce
      session world := by
  change Engaging _ (ite _ _ _) session world
  split
  case isTrue isIdentified =>
    refine .done fun notIdentified => ?_
    rw [isIdentified] at notIdentified
    cases notIdentified
  case isFalse =>
    refine .andThen engaging_identify fun _ after later _ working => ?_
    exact .write (.inl working) (.done fun _ => working)

theorem engaging_catchUp :
    Engaging (fun _ after _ => session.isIdentified = false → after.phase.IsWorking)
      (catchUp setup turns) session world := by
  refine .andThen engaging_identifyOnce fun _ after later _ works => ?_
  exact (engaging_rounds _ 0).mono fun _ _ _ passed _ isNew => passed.isWorking (works isNew)

/-! ## Ends of a call -/

/-- A call that fails leaves the phase of its error. -/
def Concludes (met : α → Session ε → ω → Prop) : Outcome α → Session ε → ω → Prop
  | .value value, after, later => met value after later
  | .error error, after, _ => after.phase = phaseAfter error
  | .halted _, _, _ => True

omit [EntryStore ε] in
theorem keeps_concluding {conduct : Conduct (Session ε) ω} {work : Routine (Session ε) α}
    {invariant stopped : Session ε → ω → Prop} {met : α → Session ε → ω → Prop}
    (keeps : work.Keeps conduct invariant (Outcome.Meets met stopped) session world) :
    (concluding work).Keeps conduct (fun _ _ => True) (Concludes met) session world := by
  have attempted := (Keeps.attempted keeps).mono_invariant fun _ _ _ => trivial
  refine attempted.sequence (fun outcome after later holds => ?_) (fun _ _ _ => False.elim)
    fun _ _ _ _ => trivial
  cases outcome with
  | ok value => exact holds
  | error error => exact ⟨trivial, rfl⟩

theorem keeps_sync :
    (sync setup turns).Keeps (Conduct.free besideOwn) (fun _ _ => True)
      (Concludes fun _ after (later : ω) => Engages session world after later ∧
        (session.isIdentified = false → after.phase.IsWorking)) session world :=
  keeps_concluding engaging_catchUp

/-- A run ends without an error only when it is canceled. -/
theorem keeps_run {conduct : Conduct (Session ε) ω} :
    (run setup turns).Keeps conduct (fun _ _ => True)
      (Concludes fun _ after _ => after.phase = .stopped) session world := by
  have follows : (follow setup turns).Keeps conduct (fun _ _ => True)
      (Outcome.Meets (fun _ _ _ => True) fun _ _ => True) session world := by
    refine Routine.keeps_of_ends fun outcome _ _ _ => ?_
    cases outcome <;> trivial
  refine (Keeps.attempted (keeps_concluding follows)).sequence (fun outcome after later holds => ?_)
    (fun _ _ _ => False.elim) fun _ _ _ _ => trivial
  cases outcome with
  | ok never => cases never
  | error error =>
      have left : after.phase = phaseAfter error := holds
      dsimp only
      split
      case isTrue isCanceled => exact left.trans (if_pos isCanceled)
      case isFalse => exact left

/-! ## Histories -/

/-- A session as it is made. -/
structure IsNew (session : Session ε) : Prop where
  phase : session.phase = .idle
  isIdentified : session.isIdentified = false

/-- What may have become of a new session after calls one after another. Whatever they were
answered, each of them has ended. -/
inductive Lived (ω : Type) (setup : Setup) : List (PastCall ε) → Session ε → Prop
  | new {session : Session ε} (isNew : session.IsNew) : Lived ω setup [] session
  | beside {calls : List (PastCall ε)} {before after : Session ε}
      (lived : Lived ω setup calls before) (keeps : KeepsOwn before after) :
      Lived ω setup calls after
  | call {calls : List (PastCall ε)} {before after : Session ε} {job : Job} {world later : ω}
      {outcome : Outcome Unit} (lived : Lived ω setup calls before)
      (ended : (job.call setup).Ends (Conduct.free besideOwn) before world outcome after later)
      (returned : outcome.HasReturned) :
      Lived ω setup (calls ++ [⟨job, before, outcome, after⟩]) after

theorem Lived.run {calls : List (PastCall ε)} {surroundings : Surroundings (Session ε) ω} {job : Job}
    (lived : Lived ω setup calls session) (follows : surroundings.Follows (Conduct.free besideOwn))
    (returned : (PastCall.ofRun surroundings setup session world job).outcome.HasReturned) :
    Lived ω setup (calls ++ [.ofRun surroundings setup session world job])
      (PastCall.ofRun surroundings setup session world job).after :=
  .call lived (Routine.ends_run follows (job.call setup) session world) returned

/-- Each call tells by the phase how it ended, or was idle. -/
theorem keeps_call (job : Job) :
    (job.call setup).Keeps (Conduct.free besideOwn) (fun _ _ => True)
      (fun outcome after (_ : ω) => outcome.HasReturned →
        PastCall.IsReported ⟨job, session, outcome, after⟩ ∨
          PastCall.IsIdle ⟨job, session, outcome, after⟩) session world := by
  cases job with
  | sync turns =>
      refine keeps_sync.sequence (fun block after later holds _ => ?_)
        (fun error after later left _ => .inl (PastCall.isReported_of_error rfl left))
        fun _ _ _ _ never => never.elim
      have reported : after.phase.IsWorking →
          PastCall.IsReported ⟨.sync turns, session, .value (), after⟩ := fun working =>
        ⟨iff_of_false working.ne_stopped Bool.false_ne_true,
          iff_of_false working.ne_error Bool.false_ne_true⟩
      rcases holds with ⟨working | idles, works⟩
      · exact .inl (reported working)
      · cases isIdentified : session.isIdentified with
        | false => exact .inl (reported (works isIdentified))
        | true => exact .inr ⟨⟨turns, rfl, rfl⟩, isIdentified, idles⟩
  | run turns =>
      refine keeps_run.mono fun outcome after later left returned => .inl ?_
      cases outcome with
      | value value =>
          have stopped : after.phase = .stopped := left
          rw [PastCall.IsReported, stopped]
          exact ⟨iff_of_true rfl rfl, iff_of_false nofun Bool.false_ne_true⟩
      | error error => exact PastCall.isReported_of_error rfl left
      | halted cause => exact returned.elim

/-- Calls that are not reported were idle. -/
theorem Lived.isReported_or_isIdle {calls : List (PastCall ε)} (lived : Lived ω setup calls session) :
    ∀ call ∈ calls, call.IsReported ∨ call.IsIdle := by
  induction lived with
  | new => exact List.forall_mem_nil _
  | beside _ _ induction => exact induction
  | call _ ended returned induction =>
      intro call member
      rcases List.mem_append.mp member with member | member
      · exact induction call member
      · rw [List.mem_singleton.mp member]
        exact Keeps.ends (keeps_call _) ended returned

/-- A phase that only certain calls leave is that of the last call that was not idle. -/
theorem Lived.phase_eq_iff {calls : List (PastCall ε)} {phase : Phase} {kind : PastCall ε → Bool}
    (lived : Lived ω setup calls session) (isNotFirst : phase ≠ .idle)
    (leaves : ∀ call : PastCall ε, call.IsReported → (call.after.phase = phase ↔ kind call = true))
    (ends : ∀ call : PastCall ε, call.IsIdle → kind call = false) :
    session.phase = phase ↔ LastOf kind calls := by
  induction lived with
  | new isNew =>
      rw [isNew.phase]
      exact iff_of_false isNotFirst.symm not_lastOf_nil
  | beside _ keeps induction => rw [keeps.phase, induction]
  | @call calls before after job _ _ outcome _ ended returned induction =>
      rw [lastOf_concat]
      have stays (idle : PastCall.IsIdle ⟨job, before, outcome, after⟩) :
          after.phase = phase ↔ LastOf kind calls := by
        rw [idle.idles.phase, induction]
      rcases Keeps.ends (keeps_call job) ended returned with reported | idle
      · constructor
        · exact fun same => .inl ((leaves _ reported).mp same)
        · rintro (isKind | ⟨idle, earlier⟩)
          · exact (leaves _ reported).mpr isKind
          · exact (stays idle).mpr earlier
      · rw [stays idle, ends _ idle]
        simp [idle]

/-- The phase of a session tells whether its last call was canceled, or failed, as long as
that call was not idle. A call that was idle leaves the phase of the last one before it that
was not, so it is not told apart from that one. -/
theorem phase_reports_calls {calls : List (PastCall ε)} (lived : Lived ω setup calls session) :
    (∀ call ∈ calls, call.IsReported ↔
      ¬ (call.IsIdle ∧ (call.before.phase = .stopped ∨ call.before.phase = .error))) ∧
    (session.phase = .stopped ↔ LastOf PastCall.isCanceled calls) ∧
    (session.phase = .error ↔ LastOf PastCall.hasFailed calls) := by
  refine ⟨fun call member => ?_, ?_, ?_⟩
  · constructor
    · exact fun reported unreported => unreported.1.isReported_iff.mp reported unreported.2
    · intro told
      rcases lived.isReported_or_isIdle call member with reported | idle
      · exact reported
      · exact idle.isReported_iff.mpr fun left => told ⟨idle, left⟩
  · exact lived.phase_eq_iff nofun (fun _ reported => reported.1)
      fun _ idle => idle.not_isCanceled
  · exact lived.phase_eq_iff nofun (fun _ reported => reported.2)
      fun _ idle => idle.not_hasFailed

omit [EntryStore ε] in
theorem calm_follows_free (reply : Session ε → ω → (call : Node.Call) → call.Reply)
    (next : ω → Query → ω) :
    (Surroundings.calm reply next).Follows (Conduct.free besideOwn) := by
  intro query session world answer after later answered
  cases answered
  exact ⟨rfl, rfl, rfl⟩

end Session

/-! A node is asked for its head three times. The second time it does not answer, and the
third time nothing is left to do. -/

namespace Fork

open Session

def served : PastCall Entry :=
  .ofRun (.scripted tree fun _ => left 2) setup session 0 (.sync 20)

def refused : PastCall Entry :=
  .ofRun (.calm (fun _ _ _ => .error (.transport "")) fun time _ => time + 1) setup served.after 0
    (.sync 20)

def servedAgain : PastCall Entry :=
  .ofRun (.scripted tree fun _ => left 2) setup refused.after 0 (.sync 20)

theorem lived_servedAgain : Lived Nat setup [served, refused, servedAgain] servedAgain.after := by
  have returned : ∀ call ∈ [served, refused, servedAgain], call.outcome.HasReturned := by
    decide +kernel
  have began : Lived Nat setup [] session := .new ⟨rfl, rfl⟩
  have one := began.run (calm_follows_free _ _) (returned served (by simp))
  have two := one.run (calm_follows_free _ _) (returned refused (by simp))
  exact two.run (calm_follows_free _ _) (returned servedAgain (by simp))

theorem servedAgain_leaves_error :
    servedAgain.outcome.value? = some () ∧ servedAgain.after.phase = .error := by
  decide +kernel

theorem servedAgain_not_reported : ¬ servedAgain.IsReported := by
  intro reported
  have failed := reported.2.mp servedAgain_leaves_error.2
  rw [PastCall.hasFailed, Outcome.eq_value servedAgain_leaves_error.1] at failed
  cases failed

end Fork

namespace Session

/-- The third call is idle, and leaves the phase of the second. -/
theorem phase_reports_calls_at_fork :
    Lived Nat Fork.setup [Fork.served, Fork.refused, Fork.servedAgain] Fork.servedAgain.after ∧
      LastOf PastCall.hasFailed [Fork.served, Fork.refused, Fork.servedAgain] ∧
      Fork.served.IsReported ∧ Fork.servedAgain.IsIdle := by
  have reports := phase_reports_calls Fork.lived_servedAgain
  refine ⟨Fork.lived_servedAgain, reports.2.2.mp Fork.servedAgain_leaves_error.2, ?_, ?_⟩
  · refine (reports.1 Fork.served (by simp)).mpr fun unreported => ?_
    cases unreported.1.isIdentified
  · by_contra busy
    exact Fork.servedAgain_not_reported
      ((reports.1 Fork.servedAgain (by simp)).mpr fun unreported => busy unreported.1)

/-- A synchronisation succeeds, and leaves the session in the phase of an error. -/
theorem success_reported_as_error_at_fork :
    Lived Nat Fork.setup [Fork.served, Fork.refused, Fork.servedAgain] Fork.servedAgain.after ∧
      Fork.servedAgain.outcome.value? = some () ∧ Fork.servedAgain.after.phase = .error ∧
      ¬ Fork.servedAgain.IsReported :=
  ⟨Fork.lived_servedAgain, Fork.servedAgain_leaves_error.1, Fork.servedAgain_leaves_error.2,
    Fork.servedAgain_not_reported⟩

end Session

end ReorgSync
