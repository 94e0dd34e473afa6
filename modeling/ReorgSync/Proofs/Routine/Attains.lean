import ReorgSync.Routine

namespace ReorgSync

/-! In given surroundings a routine runs to one end. What it attains is a value, and
something that holds of the value and of the state then. -/

/-- How an attempt ends at a routine that ends so. -/
def Outcome.attempt : Outcome α → Outcome (Except SyncError α)
  | .value result => .value (.ok result)
  | .error cause => .value (.error cause)
  | .halted cause => .halted cause

namespace Routine

theorem run_attempt (surroundings : Surroundings σ ω) (routine : Routine σ α) (state : σ)
    (world : ω) :
    routine.attempt.run surroundings state world =
      ((routine.run surroundings state world).1.attempt,
        (routine.run surroundings state world).2) := by
  induction routine generalizing state world with
  | done value => rfl
  | fail error => rfl
  | halted cause => rfl
  | read next induction => exact induction state state world
  | write changed next induction => exact induction changed world
  | ask query next induction => exact induction _ _ _

/-- To look at an outcome and then to end with it is to end with it. -/
theorem attempt_andThen_ofExcept (routine : Routine σ α) :
    routine.attempt >>= Routine.ofExcept = routine := by
  rw [bind_eq]
  induction routine with
  | done value => rfl
  | fail error => rfl
  | halted cause => rfl
  | read next inner => exact congrArg Routine.read (funext inner)
  | write state next inner => exact congrArg (Routine.write state) inner
  | ask query next inner => exact congrArg (Routine.ask query) (funext inner)

/-- Sequences of routines that run alike run alike. -/
theorem run_bind_congr {surroundings : Surroundings σ ω} {first other : Routine σ α}
    {second secondOther : α → Routine σ β} {state : σ} {world : ω}
    (same : first.run surroundings state world = other.run surroundings state world)
    (sameThen : ∀ value after later, (second value).run surroundings after later =
      (secondOther value).run surroundings after later) :
    (first >>= second).run surroundings state world =
      (other >>= secondOther).run surroundings state world := by
  have continues : (fun value => (second value).run surroundings) =
      fun value => (secondOther value).run surroundings :=
    funext fun value => funext fun after => funext fun later => sameThen value after later
  rw [bind_eq, bind_eq, run_bind, run_bind, same, continues]

/-- A sequence goes on where its first routine ends with a value. -/
theorem run_bind_of_value {surroundings : Surroundings σ ω} {first : Routine σ α}
    {second : α → Routine σ β} {state after : σ} {world later : ω} {value : α}
    (run : first.run surroundings state world = (.value value, after, later)) :
    (first >>= second).run surroundings state world =
      (second value).run surroundings after later := by
  rw [bind_eq, run_bind, run]
  rfl

/-- A sequence ends with the error of its first routine. -/
theorem run_bind_of_error {surroundings : Surroundings σ ω} {first : Routine σ α}
    {second : α → Routine σ β} {state : σ} {world : ω} {cause : SyncError}
    (fails : (first.run surroundings state world).1 = .error cause) :
    (first >>= second).run surroundings state world =
      (.error cause, (first.run surroundings state world).2) := by
  rw [bind_eq, run_bind]
  generalize first.run surroundings state world = ended at fails ⊢
  rcases ended with ⟨outcome, rest⟩
  cases fails
  rfl

def Attains (surroundings : Surroundings σ ω) (met : α → σ → ω → Prop) (routine : Routine σ α)
    (state : σ) (world : ω) : Prop :=
  ∃ value after later,
    routine.run surroundings state world = (.value value, after, later) ∧ met value after later

namespace Attains

variable {surroundings : Surroundings σ ω} {met : α → σ → ω → Prop} {state : σ} {world : ω}

theorem done {value : α} (holds : met value state world) :
    (Routine.done value).Attains surroundings met state world :=
  ⟨value, state, world, rfl, holds⟩

theorem mono {weaker : α → σ → ω → Prop} {routine : Routine σ α}
    (attains : routine.Attains surroundings met state world)
    (weaken : ∀ value after later, met value after later → weaker value after later) :
    routine.Attains surroundings weaker state world := by
  rcases attains with ⟨value, after, later, run, holds⟩
  exact ⟨value, after, later, run, weaken value after later holds⟩

theorem bind {first : Routine σ α} {second : α → Routine σ β} {met : β → σ → ω → Prop}
    (attains : first.Attains surroundings
      (fun value after later => (second value).Attains surroundings met after later) state world) :
    (first >>= second).Attains surroundings met state world := by
  rcases attains with ⟨value, after, later, run, result, last, final, runThen, holds⟩
  exact ⟨result, last, final, (run_bind_of_value run).trans runThen, holds⟩

theorem andThen {first : Routine σ α} {second : α → Routine σ β} {metThen : β → σ → ω → Prop}
    (attains : first.Attains surroundings met state world)
    (continues : ∀ value after later, met value after later →
      (second value).Attains surroundings metThen after later) :
    (first >>= second).Attains surroundings metThen state world :=
  bind (attains.mono continues)

theorem ask {query : Query} {next : query.Answer → Routine σ α} {answer : query.Answer}
    {after : σ} {later : ω}
    (answered : surroundings.answer query state world = (answer, after, later))
    (continues : (next answer).Attains surroundings met after later) :
    (Routine.ask query next).Attains surroundings met state world := by
  rcases continues with ⟨value, last, final, run, holds⟩
  refine ⟨value, last, final, ?_, holds⟩
  rw [Routine.run, answered]
  exact run

theorem get {part : σ → α} (holds : met (part state) state world) :
    (Routine.get part).Attains surroundings met state world :=
  ⟨part state, state, world, rfl, holds⟩

theorem modify {change : σ → σ} {met : Unit → σ → ω → Prop}
    (holds : met () (change state) world) :
    (Routine.modify change).Attains surroundings met state world :=
  ⟨(), change state, world, rfl, holds⟩

theorem ofExcept {outcome : Except SyncError α} {value : α} (succeeds : outcome = .ok value)
    (holds : met value state world) :
    (Routine.ofExcept outcome).Attains surroundings met state world := by
  rw [succeeds]
  exact done holds

theorem attempt {routine : Routine σ α} (attains : routine.Attains surroundings met state world) :
    routine.attempt.Attains surroundings (fun outcome after later =>
      ∃ value, outcome = .ok value ∧ met value after later) state world := by
  rcases attains with ⟨value, after, later, run, holds⟩
  refine ⟨.ok value, after, later, ?_, value, rfl, holds⟩
  rw [run_attempt, run]
  rfl

/-- A loop ends if each turn that goes on brings down a variant, and there are more
turns than that. -/
theorem iterate {step : β → Routine σ (β ⊕ α)} (during : β → σ → ω → Prop) (variant : β → Nat)
    (turn : ∀ place state world, during place state world →
      (step place).Attains surroundings (fun result after later =>
        match result with
        | .inl next => during next after later ∧ variant next < variant place
        | .inr value => met value after later) state world)
    {turns : Nat} {place : β} (enough : variant place < turns)
    (holds : during place state world) :
    (Routine.iterate step turns place).Attains surroundings met state world := by
  induction turns generalizing place state world with
  | zero => exact absurd enough (Nat.not_lt_zero _)
  | succ turns induction =>
      apply andThen (turn place state world holds)
      intro result after later found
      cases result with
      | inl next => exact induction (by have := found.2; omega) found.1
      | inr value => exact done found

end Attains

end Routine

end ReorgSync
