import ReorgSync.Proofs.Routine.Conduct

namespace ReorgSync

/-! Most work only asks and computes: while it goes on, nothing happens to the
state and the world but what the surroundings may do to them anyway. Such work
is described by what it finds out, and descriptions of this kind combine along
every way in which routines are combined. -/

/-- Nothing may happen, and what happens in two parts may happen. -/
class IsPassing (meanwhile : σ → ω → σ → ω → Prop) : Prop where
  refl : ∀ state world, meanwhile state world state world
  trans : ∀ {first second third : σ} {early middle late : ω},
    meanwhile first early second middle → meanwhile second middle third late →
      meanwhile first early third late

/-- The surroundings do no more than what may happen. -/
class Conduct.Within (conduct : Conduct σ ω) (meanwhile : σ → ω → σ → ω → Prop) : Prop where
  asked : ∀ {query : Query} {state after : σ} {world later : ω} {answer : query.Answer},
    conduct query state world answer after later → meanwhile state world after later

theorem Conduct.asked (conduct : Conduct σ ω) {meanwhile : σ → ω → σ → ω → Prop}
    [conduct.Within meanwhile] {query : Query} {state after : σ} {world later : ω}
    {answer : query.Answer} (accepted : conduct query state world answer after later) :
    meanwhile state world after later :=
  Conduct.Within.asked accepted

/-- Giving up on cancellation restricts the answers, and adds none. -/
class Conduct.GivesUp (conduct : Conduct σ ω) : Prop where
  node : ∀ {call : Node.Call} {reply : call.Reply} {state after : σ} {world later : ω},
    conduct (.cancelableNode call) state world (some reply) after later →
      conduct (.node call) state world reply after later
  pause : ∀ {time : Nat} {state after : σ} {world later : ω},
    conduct (.wait time) state world false after later →
      conduct (.pause time) state world () after later

/-- Any answer is acceptable; only what happens until it arrives is limited. -/
def Conduct.free (meanwhile : σ → ω → σ → ω → Prop) : Conduct σ ω :=
  fun _ state world _ after later => meanwhile state world after later

instance (meanwhile : σ → ω → σ → ω → Prop) : (Conduct.free meanwhile).Within meanwhile where
  asked accepted := accepted

instance (meanwhile : σ → ω → σ → ω → Prop) : (Conduct.free meanwhile).GivesUp where
  node accepted := accepted
  pause accepted := accepted

/-- The same happenings, none of which is the first that something barred happens in. -/
def sparing (meanwhile : σ → ω → σ → ω → Prop) (barred : ω → Prop) : σ → ω → σ → ω → Prop :=
  fun before early after late => meanwhile before early after late ∧ (¬ barred early → ¬ barred late)

section

variable {conduct : Conduct σ ω} {meanwhile : σ → ω → σ → ω → Prop} {barred : ω → Prop}

instance [IsPassing meanwhile] : IsPassing (sparing meanwhile barred) where
  refl state world := ⟨IsPassing.refl state world, fun notYet => notYet⟩
  trans earlier later := ⟨IsPassing.trans earlier.1 later.1, fun notYet => later.2 (earlier.2 notYet)⟩

instance [conduct.Within meanwhile] :
    (conduct.barring barred).Within (sparing meanwhile barred) where
  asked accepted := ⟨conduct.asked accepted.1, fun _ => accepted.2⟩

instance [conduct.GivesUp] : (conduct.barring barred).GivesUp where
  node accepted := ⟨Conduct.GivesUp.node accepted.1, accepted.2⟩
  pause accepted := ⟨Conduct.GivesUp.pause accepted.1, accepted.2⟩

end

namespace Routine

/-- Work as it is done in a call that may be given up on cancellation, or in one that may
not. -/
def interruptible (isCancelable : Bool) (routine : Routine σ α) : Routine σ α :=
  if isCancelable then routine.cancelable else routine

/-- To give up a sequence is to give up the part of it that is being done. -/
theorem cancelable_bind (first : Routine σ α) (second : α → Routine σ β) :
    (first >>= second).cancelable = first.cancelable >>= fun value => (second value).cancelable := by
  rw [bind_eq, bind_eq]
  induction first with
  | done value => rfl
  | fail error => rfl
  | halted cause => rfl
  | read next induction => exact congrArg Routine.read (funext induction)
  | write changed next induction => exact congrArg (Routine.write changed) induction
  | ask query next induction =>
      cases query with
      | node call =>
          rw [Routine.bind, Routine.cancelable, Routine.cancelable, Routine.bind]
          refine congrArg (Routine.ask (.cancelableNode call)) (funext fun reply => ?_)
          cases reply with
          | none => rfl
          | some reply => exact induction reply
      | pause time =>
          rw [Routine.bind, Routine.cancelable, Routine.cancelable, Routine.bind]
          refine congrArg (Routine.ask (.wait time)) (funext fun canceled => ?_)
          cases canceled with
          | true => rfl
          | false => exact induction ()
      | _ => exact congrArg (Routine.ask _) (funext induction)

theorem interruptible_bind (isCancelable : Bool) (first : Routine σ α)
    (second : α → Routine σ β) :
    (first >>= second).interruptible isCancelable =
      first.interruptible isCancelable >>= fun value =>
        (second value).interruptible isCancelable := by
  cases isCancelable with
  | true => exact cancelable_bind first second
  | false => rfl

variable {isCancelable : Bool}

/-! What asks nothing cannot be given up. -/

@[simp] theorem interruptible_done (value : α) :
    (Routine.done value : Routine σ α).interruptible isCancelable = .done value := by
  cases isCancelable <;> rfl

@[simp] theorem interruptible_fail (error : SyncError) :
    (Routine.fail error : Routine σ α).interruptible isCancelable = .fail error := by
  cases isCancelable <;> rfl

@[simp] theorem interruptible_get (part : σ → α) :
    (Routine.get part).interruptible isCancelable = Routine.get part := by
  cases isCancelable <;> rfl

@[simp] theorem interruptible_modify (change : σ → σ) :
    (Routine.modify change).interruptible isCancelable = Routine.modify change := by
  cases isCancelable <;> rfl

@[simp] theorem interruptible_ofExcept (outcome : Except SyncError α) :
    (Routine.ofExcept outcome : Routine σ α).interruptible isCancelable =
      Routine.ofExcept outcome := by
  cases outcome with
  | ok value => exact interruptible_done value
  | error error => exact interruptible_fail error

/-- A routine that changes nothing by itself, and what it has found when it ends
with a value. -/
def Quietly (conduct : Conduct σ ω) (meanwhile : σ → ω → σ → ω → Prop)
    (found : α → σ → ω → Prop) (routine : Routine σ α) (state : σ) (world : ω) : Prop :=
  routine.Keeps conduct (meanwhile state world)
    (Outcome.Meets (fun value after later =>
        meanwhile state world after later ∧ found value after later)
      (meanwhile state world)) state world

namespace Quietly

variable {conduct : Conduct σ ω} {meanwhile : σ → ω → σ → ω → Prop}
  {found : α → σ → ω → Prop} {state : σ} {world : ω}

/-- Quiet work as a part of work that is not quiet. -/
theorem keeps {routine : Routine σ α} {invariant stopped : σ → ω → Prop}
    (quietly : routine.Quietly conduct meanwhile found state world)
    (invariant_of : ∀ after later, meanwhile state world after later → invariant after later)
    (stopped_of : ∀ after later, meanwhile state world after later → stopped after later) :
    routine.Keeps conduct invariant
      (Outcome.Meets (fun value after later =>
        meanwhile state world after later ∧ found value after later) stopped) state world :=
  (Keeps.mono_invariant quietly invariant_of).weaken (fun _ _ _ holds => holds) stopped_of

theorem mono {weaker : α → σ → ω → Prop} {routine : Routine σ α}
    (quietly : routine.Quietly conduct meanwhile found state world)
    (weaken : ∀ value after later, meanwhile state world after later →
      found value after later → weaker value after later) :
    routine.Quietly conduct meanwhile weaker state world :=
  Keeps.weaken quietly
    (fun value after later holds => ⟨holds.1, weaken value after later holds.1 holds.2⟩)
    fun _ _ holds => holds

/-- What is quiet stays so if more may happen meanwhile. -/
theorem widen {wider : σ → ω → σ → ω → Prop} {routine : Routine σ α}
    (quietly : routine.Quietly conduct meanwhile found state world)
    (widens : ∀ after later, meanwhile state world after later → wider state world after later) :
    routine.Quietly conduct wider found state world :=
  (quietly.keeps widens widens).weaken
    (fun _ after later holds => ⟨widens after later holds.1, holds.2⟩) fun _ _ holds => holds

/-- What is found for two reasons is both found. -/
theorem and {other : α → σ → ω → Prop} {routine : Routine σ α}
    (quietly : routine.Quietly conduct meanwhile found state world)
    (quietlyOther : routine.Quietly conduct meanwhile other state world) :
    routine.Quietly conduct meanwhile (fun value after later =>
      found value after later ∧ other value after later) state world := by
  have both := (Keeps.and quietly quietlyOther).mono_invariant fun _ _ holds => holds.1
  refine both.mono fun outcome after later holds => ?_
  cases outcome with
  | value value => exact ⟨holds.1.1, holds.1.2, holds.2.2⟩
  | error error => exact holds.1
  | halted cause => exact holds.1

theorem mono_conduct {stricter : Conduct σ ω} {routine : Routine σ α}
    (quietly : routine.Quietly conduct meanwhile found state world)
    (stricter_le : ∀ query state world answer after later,
      stricter query state world answer after later →
        conduct query state world answer after later) :
    routine.Quietly stricter meanwhile found state world :=
  Keeps.mono_conduct quietly stricter_le

/-- What is quiet stays so while something is barred, and that does not happen. -/
theorem barring {barred : ω → Prop} {routine : Routine σ α}
    (quietly : routine.Quietly conduct meanwhile found state world) :
    routine.Quietly (conduct.barring barred) (sparing meanwhile barred) found state world := by
  have stable : Stable (conduct.barring barred)
      fun (_ : σ) later => ¬ barred world → ¬ barred later :=
    fun _ _ _ _ _ _ accepted _ _ => accepted.2
  have spares : routine.Keeps (conduct.barring barred) _ _ state world :=
    Keeps.of_stable stable routine fun notYet => notYet
  have stricter := quietly.mono_conduct fun _ _ _ _ _ _
    (accepted : conduct.barring barred _ _ _ _ _ _) => accepted.1
  refine (Keeps.and stricter spares).mono fun outcome after later holds => ?_
  cases outcome with
  | value value => exact ⟨⟨holds.1.1, holds.2⟩, holds.1.2⟩
  | error error => exact holds
  | halted cause => exact holds

/-- Reading a part of the state takes no time. -/
theorem get_andThen {part : σ → β} {second : β → Routine σ α}
    (continues : (second (part state)).Quietly conduct meanwhile found state world) :
    (Routine.get part >>= second).Quietly conduct meanwhile found state world :=
  continues

theorem attempt {routine : Routine σ α}
    (quietly : routine.Quietly conduct meanwhile found state world) :
    routine.attempt.Quietly conduct meanwhile (fun
      | .ok value => found value
      | .error _ => fun _ _ => True) state world := by
  refine (Keeps.attempt quietly).weaken (fun outcome after later holds => ?_)
    fun _ _ holds => holds
  cases outcome with
  | ok value => exact holds
  | error error => exact ⟨holds, trivial⟩

/-! ### Rules -/

variable [IsPassing meanwhile]

/-- Work that is quiet from a later point on is quiet seen from before. -/
theorem from_before {routine : Routine σ α} {before : σ} {early : ω}
    (passed : meanwhile before early state world)
    (quietly : routine.Quietly conduct meanwhile found state world) :
    routine.Keeps conduct (meanwhile before early)
      (Outcome.Meets (fun value after later =>
          meanwhile before early after later ∧ found value after later)
        (meanwhile before early)) state world :=
  (quietly.keeps (fun _ _ since => IsPassing.trans passed since)
    fun _ _ since => IsPassing.trans passed since).weaken
      (fun _ _ _ holds => ⟨IsPassing.trans passed holds.1, holds.2⟩) fun _ _ holds => holds

theorem done {value : α} (holds : found value state world) :
    (Routine.done value).Quietly conduct meanwhile found state world :=
  ⟨IsPassing.refl state world, holds⟩

theorem fail {error : SyncError} :
    (Routine.fail error : Routine σ α).Quietly conduct meanwhile found state world :=
  IsPassing.refl state world

theorem halted {cause : Halt} :
    (Routine.halted cause : Routine σ α).Quietly conduct meanwhile found state world :=
  IsPassing.refl state world

theorem get {part : σ → α} (holds : found (part state) state world) :
    (Routine.get part).Quietly conduct meanwhile found state world :=
  ⟨IsPassing.refl state world, holds⟩

theorem write {changed : σ} {next : Routine σ α}
    (small : meanwhile state world changed world)
    (continues : next.Quietly conduct meanwhile found changed world) :
    (Routine.write changed next).Quietly conduct meanwhile found state world :=
  ⟨small, from_before small continues⟩

theorem modify {change : σ → σ} (small : meanwhile state world (change state) world) :
    (Routine.modify change).Quietly conduct meanwhile
      (fun _ after later => after = change state ∧ later = world) state world :=
  write small (done ⟨rfl, rfl⟩)

theorem andThen {first : Routine σ α} {second : α → Routine σ β} {foundThen : β → σ → ω → Prop}
    (quietly : first.Quietly conduct meanwhile found state world)
    (continues : ∀ value after later, meanwhile state world after later →
      found value after later → (second value).Quietly conduct meanwhile foundThen after later) :
    (first >>= second).Quietly conduct meanwhile foundThen state world :=
  Keeps.andThen quietly fun value after later holds =>
    from_before holds.1 (continues value after later holds.1 holds.2)

/-- Quiet work in front of work that is not quiet. -/
theorem andKeeps {first : Routine σ α} {second : α → Routine σ β} {before : σ} {early : ω}
    {invariant stopped : σ → ω → Prop} {met : β → σ → ω → Prop}
    (invariant_of : ∀ after later, meanwhile before early after later → invariant after later)
    (stopped_of : ∀ after later, meanwhile before early after later → stopped after later)
    (passed : meanwhile before early state world)
    (quietly : first.Quietly conduct meanwhile found state world)
    (continues : ∀ value after later, meanwhile before early after later →
      found value after later →
        (second value).Keeps conduct invariant (Outcome.Meets met stopped) after later) :
    (first >>= second).Keeps conduct invariant (Outcome.Meets met stopped) state world := by
  have since : ∀ after later, meanwhile state world after later →
      meanwhile before early after later := fun _ _ passedThen => IsPassing.trans passed passedThen
  refine (quietly.keeps (fun after later passedThen => invariant_of after later
    (since after later passedThen)) fun after later passedThen => stopped_of after later
      (since after later passedThen)).andThen ?_
  exact fun value after later holds =>
    continues value after later (since after later holds.1) holds.2

theorem ofExcept {outcome : Except SyncError α} :
    (Routine.ofExcept outcome).Quietly conduct meanwhile (fun value after later =>
      outcome = .ok value ∧ after = state ∧ later = world) state world := by
  cases outcome with
  | ok value => exact done ⟨rfl, rfl, rfl⟩
  | error error => exact fail

theorem computes {routine : Routine σ α} {value : α} (computes : routine.Computes value) :
    routine.Quietly conduct meanwhile (fun found after later =>
      found = value ∧ after = state ∧ later = world) state world := by
  cases computes with
  | found => exact done ⟨rfl, rfl, rfl⟩
  | overflow operation => exact halted

/-- A loop is quiet if each of its turns is. -/
theorem iterate {step : β → Routine σ (β ⊕ α)} (during : β → σ → ω → Prop)
    (turn : ∀ place state world, during place state world →
      (step place).Quietly conduct meanwhile (fun
        | .inl place => during place
        | .inr value => found value) state world)
    (turns : Nat) (place : β) (holds : during place state world) :
    (Routine.iterate step turns place).Quietly conduct meanwhile found state world := by
  induction turns generalizing place state world with
  | zero => exact halted
  | succ turns induction =>
      apply andThen (turn place state world holds)
      intro result after later _ found
      cases result with
      | inl place => exact induction place found
      | inr value => exact done found

/-! ### Questions -/

variable [conduct.Within meanwhile]

/-- Wherever a run of quiet work comes to, no more has happened. -/
theorem reaches {routine : Routine σ α} {now : Situation σ ω α}
    (quietly : routine.Quietly conduct meanwhile found state world)
    (reached : Situation.Reaches conduct ⟨routine, state, world⟩ now) :
    meanwhile state world now.state now.world := by
  have stable : Stable conduct (meanwhile state world) :=
    fun _ _ _ _ _ _ accepted passed => IsPassing.trans passed (conduct.asked accepted)
  exact Keeps.preserved reached stable quietly (IsPassing.refl state world)

/-- The same of work that is quiet while something is barred, unless that has happened. -/
theorem reaches_unless {barred : ω → Prop} {routine : Routine σ α} {now : Situation σ ω α}
    (quietly : routine.Quietly (conduct.barring barred) (sparing meanwhile barred) found state world)
    (remains : Stable conduct fun (_ : σ) world => barred world)
    (reached : Situation.Reaches conduct ⟨routine, state, world⟩ now) :
    barred now.world ∨ meanwhile state world now.state now.world := by
  have stable : Stable conduct fun after later =>
      barred later ∨ sparing meanwhile barred state world after later := by
    intro query before early answer after later accepted holds
    by_cases happened : barred later
    · exact .inl happened
    · refine .inr (IsPassing.trans (holds.resolve_left fun earlier => ?_)
        ⟨conduct.asked accepted, fun _ => happened⟩)
      exact happened (remains query before early answer after later accepted earlier)
  exact (Keeps.preserved reached stable (Keeps.unless remains quietly)
    (.inr (IsPassing.refl state world))).imp id And.left

theorem ask {query : Query} {next : query.Answer → Routine σ α}
    (continues : ∀ answer after later, conduct query state world answer after later →
      (next answer).Quietly conduct meanwhile found after later) :
    (Routine.ask query next).Quietly conduct meanwhile found state world := by
  intro answer after later accepted
  exact from_before (conduct.asked accepted) (continues answer after later accepted)

theorem node {call : Node.Call} : (Routine.node call).Quietly conduct meanwhile
    (fun _ _ _ => True) state world := by
  apply ask
  intro reply after later _
  cases reply with
  | ok value => exact done trivial
  | error error => exact fail

theorem checkCanceled : Routine.checkCanceled.Quietly conduct meanwhile (fun _ _ _ => True)
    state world := by
  apply ask
  intro canceled after later _
  cases canceled with
  | true => exact fail
  | false => exact done trivial

theorem sleep {time : Nat} : (Routine.sleep time).Quietly conduct meanwhile (fun _ _ _ => True)
    state world := by
  apply ask
  intro canceled after later _
  cases canceled with
  | true => exact fail
  | false => exact done trivial

theorem releasing {routine : Routine σ α}
    (stable : ∀ value state world after later, meanwhile state world after later →
      found value state world → found value after later)
    (quietly : routine.Quietly conduct meanwhile found state world) :
    routine.releasing.Quietly conduct meanwhile found state world := by
  apply andThen (attempt quietly)
  intro outcome after later _ holds
  apply ask
  intro _ after' later' accepted
  cases outcome with
  | ok value => exact done (stable value _ _ _ _ (conduct.asked accepted) holds)
  | error error => exact fail

theorem exclusively {routine : Routine σ α}
    (stable : ∀ value state world after later, meanwhile state world after later →
      found value state world → found value after later)
    (quietly : ∀ after later, meanwhile state world after later →
      routine.Quietly conduct meanwhile found after later) :
    routine.exclusively.Quietly conduct meanwhile found state world :=
  ask fun _ after later accepted =>
    releasing stable (quietly after later (conduct.asked accepted))

/-! ### Giving up -/

variable [conduct.GivesUp]

private theorem keeps_cancelable {routine : Routine σ α} {before : σ} {early : ω}
    {met : α → σ → ω → Prop} (passed : meanwhile before early state world)
    (keeps : routine.Keeps conduct (meanwhile before early)
      (Outcome.Meets met (meanwhile before early)) state world) :
    routine.cancelable.Keeps conduct (meanwhile before early)
      (Outcome.Meets met (meanwhile before early)) state world := by
  induction routine generalizing state world with
  | done value => exact keeps
  | fail error => exact keeps
  | halted cause => exact keeps
  | read next induction => exact induction _ passed keeps
  | write changed next induction => exact ⟨keeps.1, induction keeps.1 keeps.2⟩
  | ask query next induction =>
      have continues : ∀ answer after later, conduct query state world answer after later →
          (next answer).cancelable.Keeps conduct (meanwhile before early)
            (Outcome.Meets met (meanwhile before early)) after later :=
        fun answer after later accepted =>
          induction answer (IsPassing.trans passed (conduct.asked accepted))
            (keeps answer after later accepted)
      cases query with
      | node call =>
          rw [Routine.cancelable]
          intro reply after later accepted
          cases reply with
          | none => exact IsPassing.trans passed (conduct.asked accepted)
          | some reply => exact continues reply after later (Conduct.GivesUp.node accepted)
      | pause time =>
          rw [Routine.cancelable]
          intro canceled after later accepted
          cases canceled with
          | true => exact IsPassing.trans passed (conduct.asked accepted)
          | false => exact continues () after later (Conduct.GivesUp.pause accepted)
      | _ =>
          simp only [Routine.cancelable]
          exact continues

theorem cancelable {routine : Routine σ α}
    (quietly : routine.Quietly conduct meanwhile found state world) :
    routine.cancelable.Quietly conduct meanwhile found state world :=
  keeps_cancelable (IsPassing.refl state world) quietly

theorem guarded {routine : Routine σ α}
    (quietly : ∀ after later, meanwhile state world after later →
      routine.Quietly conduct meanwhile found after later) :
    routine.guarded.Quietly conduct meanwhile found state world :=
  andThen checkCanceled fun _ after later passed _ =>
    cancelable (quietly after later passed)

/-- The same for work that may or may not be given up. -/
theorem interruptible {routine : Routine σ α} (isCancelable : Bool)
    (quietly : routine.Quietly conduct meanwhile found state world) :
    (routine.interruptible isCancelable).Quietly conduct meanwhile found state world := by
  cases isCancelable with
  | true => exact cancelable quietly
  | false => exact quietly

/-- A call that is given up on cancellation is answered at some moment. -/
theorem guarded_ask {call : Node.Call} :
    (Routine.ask (.cancelableNode call) Routine.done).guarded.Quietly conduct meanwhile
      (fun reply after later => ∃ before early, meanwhile state world before early ∧
        conduct (.cancelableNode call) before early reply after later) state world := by
  apply guarded
  intro before early passed
  apply ask
  intro reply after later accepted
  exact done ⟨before, early, passed, accepted⟩

theorem guardedExclusively {routine : Routine σ α}
    (stable : ∀ value state world after later, meanwhile state world after later →
      found value state world → found value after later)
    (quietly : ∀ after later, meanwhile state world after later →
      routine.Quietly conduct meanwhile found after later) :
    routine.guardedExclusively.Quietly conduct meanwhile found state world := by
  apply andThen checkCanceled
  intro _ after later passed _
  apply ask
  intro canceled after' later' accepted
  cases canceled with
  | true => exact fail
  | false =>
      exact releasing stable (cancelable
        (quietly after' later' (IsPassing.trans passed (conduct.asked accepted))))

end Quietly

end Routine

end ReorgSync
