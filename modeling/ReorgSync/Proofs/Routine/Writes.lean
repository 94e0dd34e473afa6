import ReorgSync.Proofs.Routine.Quietly

namespace ReorgSync

/-! What a routine writes by itself, one write at a time. Others may change the state
while an answer is awaited; between two questions only the routine changes it. -/

namespace Routine

/-! ## Any surroundings -/

/-- Whatever is answered, and whatever has become of the state until then, each write is
an allowed one. -/
def OnlyWrites (writes : σ → σ → Prop) : Routine σ α → σ → Prop
  | .done _, _ => True
  | .fail _, _ => True
  | .halted _, _ => True
  | .read next, state => (next state).OnlyWrites writes state
  | .write changed next, state => writes state changed ∧ next.OnlyWrites writes changed
  | .ask _ next, _ => ∀ answer after, (next answer).OnlyWrites writes after

namespace OnlyWrites

variable {writes : σ → σ → Prop} {state : σ}

theorem mono {weaker : σ → σ → Prop} {routine : Routine σ α}
    (only : routine.OnlyWrites writes state)
    (weaken : ∀ before after, writes before after → weaker before after) :
    routine.OnlyWrites weaker state := by
  induction routine generalizing state with
  | done value => trivial
  | fail error => trivial
  | halted cause => trivial
  | read next induction => exact induction state only
  | write changed next induction => exact ⟨weaken _ _ only.1, induction only.2⟩
  | ask query next induction => exact fun answer after => induction answer (only answer after)

theorem andThen {first : Routine σ α} {second : α → Routine σ β}
    (only : first.OnlyWrites writes state)
    (continues : ∀ value after, (second value).OnlyWrites writes after) :
    (first >>= second).OnlyWrites writes state := by
  rw [bind_eq]
  induction first generalizing state with
  | done value => exact continues value state
  | fail error => trivial
  | halted cause => trivial
  | read next induction => exact induction state only
  | write changed next induction => exact ⟨only.1, induction only.2⟩
  | ask query next induction => exact fun answer after => induction answer (only answer after)

theorem get_andThen {part : σ → α} {second : α → Routine σ β}
    (continues : (second (part state)).OnlyWrites writes state) :
    (Routine.get part >>= second).OnlyWrites writes state :=
  continues

theorem modify {change : σ → σ} (small : writes state (change state)) :
    (Routine.modify change).OnlyWrites writes state :=
  ⟨small, trivial⟩

theorem ofExcept {outcome : Except SyncError α} :
    (Routine.ofExcept outcome).OnlyWrites writes state := by
  cases outcome <;> trivial

theorem computes {routine : Routine σ α} {value : α} (computes : routine.Computes value) :
    routine.OnlyWrites writes state := by
  cases computes <;> trivial

theorem node {call : Node.Call} : (Routine.node call).OnlyWrites writes state := by
  intro reply after
  cases reply <;> trivial

theorem checkCanceled : Routine.checkCanceled.OnlyWrites writes state := by
  intro canceled after
  cases canceled <;> trivial

theorem sleep {time : Nat} : (Routine.sleep time).OnlyWrites writes state := by
  intro canceled after
  cases canceled <;> trivial

theorem attempt {routine : Routine σ α} (only : routine.OnlyWrites writes state) :
    routine.attempt.OnlyWrites writes state := by
  induction routine generalizing state with
  | done value => trivial
  | fail error => trivial
  | halted cause => trivial
  | read next induction => exact induction state only
  | write changed next induction => exact ⟨only.1, induction only.2⟩
  | ask query next induction => exact fun answer after => induction answer (only answer after)

theorem iterate {step : β → Routine σ (β ⊕ α)}
    (turn : ∀ place state, (step place).OnlyWrites writes state) (turns : Nat) (place : β) :
    (Routine.iterate step turns place).OnlyWrites writes state := by
  induction turns generalizing place state with
  | zero => trivial
  | succ turns induction =>
      refine andThen (turn place state) fun result after => ?_
      cases result with
      | inl place => exact induction place
      | inr value => trivial

theorem releasing {routine : Routine σ α} (only : routine.OnlyWrites writes state) :
    routine.releasing.OnlyWrites writes state :=
  andThen only.attempt fun _ _ _ _ => ofExcept

theorem exclusively {routine : Routine σ α} (only : ∀ after, routine.OnlyWrites writes after) :
    routine.exclusively.OnlyWrites writes state :=
  fun _ after => releasing (only after)

theorem cancelable {routine : Routine σ α} (only : routine.OnlyWrites writes state) :
    routine.cancelable.OnlyWrites writes state := by
  induction routine generalizing state with
  | done value => trivial
  | fail error => trivial
  | halted cause => trivial
  | read next induction => exact induction state only
  | write changed next induction => exact ⟨only.1, induction only.2⟩
  | ask query next induction =>
      cases query with
      | node call =>
          rw [Routine.cancelable]
          intro reply after
          cases reply with
          | none => trivial
          | some reply => exact induction reply (only reply after)
      | pause time =>
          rw [Routine.cancelable]
          intro canceled after
          cases canceled with
          | true => trivial
          | false => exact induction () (only () after)
      | _ =>
          simp only [Routine.cancelable]
          exact fun answer after => induction answer (only answer after)

theorem guarded {routine : Routine σ α} (only : ∀ after, routine.OnlyWrites writes after) :
    routine.guarded.OnlyWrites writes state :=
  andThen checkCanceled fun _ after => cancelable (only after)

theorem guardedExclusively {routine : Routine σ α}
    (only : ∀ after, routine.OnlyWrites writes after) :
    routine.guardedExclusively.OnlyWrites writes state := by
  refine andThen checkCanceled fun _ _ canceled after => ?_
  cases canceled with
  | true => trivial
  | false => exact releasing (cancelable (only after))

/-- Work whose writes are among what may happen anyway is quiet. -/
theorem quietly {conduct : Conduct σ ω} {meanwhile : σ → ω → σ → ω → Prop}
    [IsPassing meanwhile] [conduct.Within meanwhile] {routine : Routine σ α} {world : ω}
    (only : routine.OnlyWrites writes state)
    (small : ∀ before after (world : ω), writes before after →
      meanwhile before world after world) :
    routine.Quietly conduct meanwhile (fun _ _ _ => True) state world := by
  induction routine generalizing state world with
  | done value => exact .done trivial
  | fail error => exact .fail
  | halted cause => exact .halted
  | read next induction => exact induction state only
  | write changed next induction =>
      exact .write (small state changed world only.1) (induction only.2)
  | ask query next induction =>
      exact .ask fun answer after _ _ => induction answer (only answer after)

end OnlyWrites

/-! ## Surroundings that keep to a conduct -/

/-- As long as the surroundings keep to their conduct, each write is an allowed one, and
a value meets a condition. -/
def Guarantees (conduct : Conduct σ ω) (writes : σ → σ → Prop) (met : α → σ → Prop) :
    Routine σ α → σ → ω → Prop
  | .done value, state, _ => met value state
  | .fail _, _, _ => True
  | .halted _, _, _ => True
  | .read next, state, world => (next state).Guarantees conduct writes met state world
  | .write changed next, state, world =>
      writes state changed ∧ next.Guarantees conduct writes met changed world
  | .ask query next, state, world =>
      ∀ answer after later, conduct query state world answer after later →
        (next answer).Guarantees conduct writes met after later

/-- The routine has come to a question or to its end. -/
def Waits : Routine σ α → Prop
  | .read _ => False
  | .write _ _ => False
  | _ => True

namespace Guarantees

variable {conduct : Conduct σ ω} {writes : σ → σ → Prop} {met : α → σ → Prop} {state : σ}
  {world : ω}

theorem mono {weaker : α → σ → Prop} {routine : Routine σ α}
    (guarantees : routine.Guarantees conduct writes met state world)
    (weaken : ∀ value after, met value after → weaker value after) :
    routine.Guarantees conduct writes weaker state world := by
  induction routine generalizing state world with
  | done value => exact weaken value state guarantees
  | fail error => trivial
  | halted cause => trivial
  | read next induction => exact induction state guarantees
  | write changed next induction => exact ⟨guarantees.1, induction guarantees.2⟩
  | ask query next induction =>
      exact fun answer after later accepted => induction answer (guarantees _ _ _ accepted)

theorem andThen {first : Routine σ α} {second : α → Routine σ β} {metThen : β → σ → Prop}
    (guarantees : first.Guarantees conduct writes met state world)
    (continues : ∀ value after (later : ω), met value after →
      (second value).Guarantees conduct writes metThen after later) :
    (first >>= second).Guarantees conduct writes metThen state world := by
  rw [bind_eq]
  induction first generalizing state world with
  | done value => exact continues value state world guarantees
  | fail error => trivial
  | halted cause => trivial
  | read next induction => exact induction state guarantees
  | write changed next induction => exact ⟨guarantees.1, induction guarantees.2⟩
  | ask query next induction =>
      exact fun answer after later accepted => induction answer (guarantees _ _ _ accepted)

theorem get_andThen {part : σ → α} {second : α → Routine σ β} {met : β → σ → Prop}
    (continues : (second (part state)).Guarantees conduct writes met state world) :
    (Routine.get part >>= second).Guarantees conduct writes met state world :=
  continues

theorem of_computes {routine : Routine σ α} {value : α} (computes : routine.Computes value)
    (holds : met value state) : routine.Guarantees conduct writes met state world := by
  cases computes with
  | found => exact holds
  | overflow operation => trivial

theorem computes {first : Routine σ α} {second : α → Routine σ β} {value : α}
    {met : β → σ → Prop} (computes : first.Computes value)
    (continues : (second value).Guarantees conduct writes met state world) :
    (first >>= second).Guarantees conduct writes met state world := by
  cases computes with
  | found => exact continues
  | overflow operation => trivial

theorem attempt {routine : Routine σ α}
    (guarantees : routine.Guarantees conduct writes met state world) :
    routine.attempt.Guarantees conduct writes (fun outcome after =>
      ∀ value, outcome = .ok value → met value after) state world := by
  induction routine generalizing state world with
  | done value =>
      rintro _ ⟨⟩
      exact guarantees
  | fail error => exact nofun
  | halted cause => trivial
  | read next induction => exact induction state guarantees
  | write changed next induction => exact ⟨guarantees.1, induction guarantees.2⟩
  | ask query next induction =>
      exact fun answer after later accepted => induction answer (guarantees _ _ _ accepted)

/-- The same where the error of the routine is looked at: what the writes and the
surroundings leave true holds then too. -/
theorem attempt_keeping {holds : σ → Prop} {routine : Routine σ α}
    (guarantees : routine.Guarantees conduct writes met state world)
    (written : ∀ before after, writes before after → holds before → holds after)
    (asked : ∀ query before (early : ω) answer after later,
      conduct query before early answer after later → holds before → holds after)
    (start : holds state) :
    routine.attempt.Guarantees conduct writes (fun outcome after =>
      holds after ∧ ∀ value, outcome = .ok value → met value after) state world := by
  induction routine generalizing state world with
  | done value =>
      refine ⟨start, ?_⟩
      rintro _ ⟨⟩
      exact guarantees
  | fail error => exact ⟨start, nofun⟩
  | halted cause => trivial
  | read next induction => exact induction state guarantees start
  | write changed next induction =>
      exact ⟨guarantees.1, induction guarantees.2 (written state changed guarantees.1 start)⟩
  | ask query next induction =>
      exact fun answer after later accepted =>
        induction answer (guarantees _ _ _ accepted) (asked _ _ _ _ _ _ accepted start)

theorem iterate {step : β → Routine σ (β ⊕ α)} (during : β → σ → Prop)
    (turn : ∀ place state (world : ω), during place state →
      (step place).Guarantees conduct writes (fun
        | .inl place => during place
        | .inr value => met value) state world)
    (turns : Nat) (place : β) (holds : during place state) :
    (Routine.iterate step turns place).Guarantees conduct writes met state world := by
  induction turns generalizing place state world with
  | zero => trivial
  | succ turns induction =>
      refine andThen (turn place state world holds) fun result after later found => ?_
      cases result with
      | inl place => exact induction place found
      | inr value => exact found

/-- Writes that are allowed at any time are allowed while something holds that they and
the surroundings leave true. -/
theorem of_onlyWrites {base : σ → σ → Prop} {holds : σ → Prop} {routine : Routine σ α}
    (only : routine.OnlyWrites base state)
    (allowed : ∀ before after, holds before → base before after →
      writes before after ∧ holds after)
    (stable : ∀ query before (early : ω) answer after later,
      conduct query before early answer after later → holds before → holds after)
    (start : holds state) :
    routine.Guarantees conduct writes (fun _ => holds) state world := by
  induction routine generalizing state world with
  | done value => exact start
  | fail error => trivial
  | halted cause => trivial
  | read next induction => exact induction state only start
  | write changed next induction =>
      have written := allowed state changed start only.1
      exact ⟨written.1, induction only.2 written.2⟩
  | ask query next induction =>
      exact fun answer after later accepted =>
        induction answer (only answer after) (stable _ _ _ _ _ _ accepted start)

/-- Quiet work writes no more than may happen. -/
theorem of_quietly {meanwhile : σ → ω → σ → ω → Prop} [IsPassing meanwhile]
    [conduct.Within meanwhile] {found : α → σ → ω → Prop} {routine : Routine σ α}
    (quietly : routine.Quietly conduct meanwhile found state world)
    (allowed : ∀ before after early late, meanwhile state world before early →
      meanwhile state world after late → writes before after) :
    routine.Guarantees conduct writes (fun value after =>
      ∃ later, meanwhile state world after later ∧ found value after later) state world := by
  suffices later : ∀ now late, meanwhile state world now late →
      routine.Keeps conduct (meanwhile state world)
        (Outcome.Meets (fun value after later =>
            meanwhile state world after later ∧ found value after later)
          (meanwhile state world)) now late →
      routine.Guarantees conduct writes (fun value after =>
        ∃ later, meanwhile state world after later ∧ found value after later) now late from
    later state world (IsPassing.refl state world) quietly
  clear quietly
  induction routine with
  | done value => exact fun now late _ holds => ⟨late, holds⟩
  | fail error => exact fun _ _ _ _ => trivial
  | halted cause => exact fun _ _ _ _ => trivial
  | read next induction => exact fun now late passed keeps => induction now now late passed keeps
  | write changed next induction =>
      exact fun now late passed keeps =>
        ⟨allowed now changed late late passed keeps.1, induction changed late keeps.1 keeps.2⟩
  | ask query next induction =>
      exact fun now late passed keeps answer after later accepted =>
        induction answer after later (IsPassing.trans passed (conduct.asked accepted))
          (keeps answer after later accepted)

theorem step {before after : Situation σ ω α}
    (guarantees : before.rest.Guarantees conduct writes met before.state before.world)
    (step : Situation.Step conduct before after) :
    after.rest.Guarantees conduct writes met after.state after.world := by
  cases step with
  | read => exact guarantees
  | write => exact guarantees.2
  | ask accepted => exact guarantees _ _ _ accepted

theorem reaches {before after : Situation σ ω α}
    (guarantees : before.rest.Guarantees conduct writes met before.state before.world)
    (reached : Situation.Reaches conduct before after) :
    after.rest.Guarantees conduct writes met after.state after.world := by
  induction reached with
  | refl => exact guarantees
  | tail _ step induction => exact induction.step step

/-- What a step of a run does to a state is one of the writes that are allowed, or up to
the surroundings. -/
theorem holds_step (holds : σ → Prop) (breaks : σ → σ → Prop) {before after : Situation σ ω α}
    (guarantees : before.rest.Guarantees conduct writes met before.state before.world)
    (written : ∀ before after, writes before after → holds before → holds after ∨ breaks before after)
    (asked : ∀ query before (early : ω) answer after later,
      conduct query before early answer after later → holds before → holds after)
    (step : Situation.Step conduct before after) (start : holds before.state) :
    holds after.state ∨ breaks before.state after.state := by
  cases step with
  | read => exact .inl start
  | write => exact written _ _ guarantees.1 start
  | ask accepted => exact .inl (asked _ _ _ _ _ _ accepted start)

/-- What holds at first holds in every situation that a run comes to, unless a write on the
way there broke it. -/
theorem holds_or_breaks (holds : σ → Prop) (breaks : σ → σ → Prop) {begun now : Situation σ ω α}
    (guarantees : begun.rest.Guarantees conduct writes met begun.state begun.world)
    (written : ∀ before after, writes before after → holds before → holds after ∨ breaks before after)
    (asked : ∀ query before (early : ω) answer after later,
      conduct query before early answer after later → holds before → holds after)
    (reached : Situation.Reaches conduct begun now) (start : holds begun.state) :
    holds now.state ∨ ∃ before after : Situation σ ω α,
      Situation.Reaches conduct begun before ∧ Situation.Step conduct before after ∧
        Situation.Reaches conduct after now ∧ breaks before.state after.state := by
  induction reached with
  | refl => exact .inl start
  | tail earlier step induction =>
      rcases induction with held | ⟨before, after, reached, broken, since, breaks⟩
      · rcases (guarantees.reaches earlier).holds_step holds breaks written asked step held with
        holds | breaks
        · exact .inl holds
        · exact .inr ⟨_, _, earlier, step, .refl, breaks⟩
      · exact .inr ⟨before, after, reached, broken, since.tail step, breaks⟩

/-- A routine that waits may wait on while others change the state, if an answer then
is an answer now. -/
theorem wait {after : σ} {later : ω} {routine : Routine σ α} (waits : routine.Waits)
    (guarantees : routine.Guarantees conduct writes (fun _ _ => True) state world)
    (answers : ∀ query answer last final, conduct query after later answer last final →
      conduct query state world answer last final) :
    routine.Guarantees conduct writes (fun _ _ => True) after later := by
  cases routine with
  | done value => trivial
  | fail error => trivial
  | halted cause => trivial
  | read next => exact waits.elim
  | write changed next => exact waits.elim
  | ask query next =>
      exact fun answer last final accepted =>
        guarantees answer last final (answers query answer last final accepted)

end Guarantees

end Routine

end ReorgSync
