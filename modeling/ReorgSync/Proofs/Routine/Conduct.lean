import Mathlib.Logic.Relation
import ReorgSync.Routine

namespace ReorgSync

/-! Surroundings are free in what they answer. A conduct says which answers count
as acceptable ones, and a routine is then followed through all of them: every
schedule of the surroundings is one way to choose the answers. -/

/-- Which answers are acceptable: the question with the shared state and the
world when it is asked, and the answer with both when it arrives. -/
abbrev Conduct (σ ω : Type) : Type :=
  (query : Query) → σ → ω → query.Answer → σ → ω → Prop

/-- The answers of given surroundings, and no others. -/
def Surroundings.conduct (surroundings : Surroundings σ ω) : Conduct σ ω :=
  fun query state world answer after later =>
    surroundings.answer query state world = (answer, after, later)

/-- Surroundings whose answers are all acceptable. -/
def Surroundings.Follows (surroundings : Surroundings σ ω) (conduct : Conduct σ ω) : Prop :=
  ∀ query state world answer after later,
    surroundings.conduct query state world answer after later →
      conduct query state world answer after later

/-- The same answers, as long as something does not happen to the world. -/
def Conduct.barring (conduct : Conduct σ ω) (barred : ω → Prop) : Conduct σ ω :=
  fun query state world answer after later =>
    conduct query state world answer after later ∧ ¬ barred later

/-- A point of a run: what is left to do, and the state and the world it is done
in. -/
structure Situation (σ ω α : Type) where
  rest : Routine σ α
  state : σ
  world : ω

namespace Situation

/-- One step of a run. -/
inductive Step (conduct : Conduct σ ω) : Situation σ ω α → Situation σ ω α → Prop
  | read {next : σ → Routine σ α} {state : σ} {world : ω} :
      Step conduct ⟨.read next, state, world⟩ ⟨next state, state, world⟩
  | write {changed state : σ} {next : Routine σ α} {world : ω} :
      Step conduct ⟨.write changed next, state, world⟩ ⟨next, changed, world⟩
  | ask {query : Query} {next : query.Answer → Routine σ α} {state after : σ}
      {world later : ω} {answer : query.Answer}
      (accepted : conduct query state world answer after later) :
      Step conduct ⟨.ask query next, state, world⟩ ⟨next answer, after, later⟩

/-- The situations that a run can come to. -/
def Reaches (conduct : Conduct σ ω) : Situation σ ω α → Situation σ ω α → Prop :=
  Relation.ReflTransGen (Step conduct)

end Situation

/-- The routine that is left when a run has ended. -/
def Outcome.rest : Outcome α → Routine σ α
  | .value result => .done result
  | .error cause => .fail cause
  | .halted cause => .halted cause

/-- The value that a run has ended with, if there is one. -/
def Outcome.value? : Outcome α → Option α
  | .value result => some result
  | .error _ => none
  | .halted _ => none

theorem Outcome.eq_value {outcome : Outcome α} {result : α} (same : outcome.value? = some result) :
    outcome = .value result := by
  cases outcome with
  | value other =>
      cases same
      rfl
  | error cause => cases same
  | halted cause => cases same

namespace Routine

/-- The ends that a routine can come to. -/
def Ends (conduct : Conduct σ ω) (routine : Routine σ α) (state : σ) (world : ω)
    (outcome : Outcome α) (after : σ) (later : ω) : Prop :=
  Situation.Reaches conduct ⟨routine, state, world⟩ ⟨outcome.rest, after, later⟩

/-- Running a routine is one way of following it. -/
theorem ends_run {surroundings : Surroundings σ ω} {conduct : Conduct σ ω}
    (follows : surroundings.Follows conduct) (routine : Routine σ α) (state : σ) (world : ω) :
    routine.Ends conduct state world (routine.run surroundings state world).1
      (routine.run surroundings state world).2.1 (routine.run surroundings state world).2.2 := by
  induction routine generalizing state world with
  | done value => exact .refl
  | fail error => exact .refl
  | halted cause => exact .refl
  | read next induction => exact .head .read (induction state state world)
  | write changed next induction => exact .head .write (induction changed world)
  | ask query next induction =>
      exact .head (.ask (follows query state world _ _ _ rfl)) (induction _ _ _)

/-- The answers that surroundings give in one run are acceptable. At other times they may
answer otherwise. -/
def FollowedBy (surroundings : Surroundings σ ω) (conduct : Conduct σ ω) :
    Routine σ α → σ → ω → Prop
  | .done _, _, _ => True
  | .fail _, _, _ => True
  | .halted _, _, _ => True
  | .read next, state, world => (next state).FollowedBy surroundings conduct state world
  | .write changed next, _, world => next.FollowedBy surroundings conduct changed world
  | .ask query next, state, world =>
      let (answer, after, later) := surroundings.answer query state world
      conduct query state world answer after later ∧
        (next answer).FollowedBy surroundings conduct after later

theorem followedBy_of_follows {surroundings : Surroundings σ ω} {conduct : Conduct σ ω}
    (follows : surroundings.Follows conduct) (routine : Routine σ α) (state : σ) (world : ω) :
    routine.FollowedBy surroundings conduct state world := by
  induction routine generalizing state world with
  | done value => trivial
  | fail error => trivial
  | halted cause => trivial
  | read next induction => exact induction state state world
  | write changed next induction => exact induction changed world
  | ask query next induction =>
      exact ⟨follows query state world _ _ _ rfl, induction _ _ _⟩

theorem ends_of_run {surroundings : Surroundings σ ω} {conduct : Conduct σ ω}
    (follows : surroundings.Follows conduct) {routine : Routine σ α} {state : σ} {world : ω}
    {value : α} (same : (routine.run surroundings state world).1.value? = some value) :
    routine.Ends conduct state world (.value value)
      (routine.run surroundings state world).2.1 (routine.run surroundings state world).2.2 := by
  have ended := ends_run follows routine state world
  rw [Outcome.eq_value same] at ended
  exact ended

/-! ## What a routine keeps

A routine is followed from its first step on. Its own writes have to keep an
invariant, and its ends have to be as stated; the surroundings decide the rest. -/

def Keeps (conduct : Conduct σ ω) (invariant : σ → ω → Prop)
    (ends : Outcome α → σ → ω → Prop) : Routine σ α → σ → ω → Prop
  | .done value, state, world => ends (.value value) state world
  | .fail error, state, world => ends (.error error) state world
  | .halted cause, state, world => ends (.halted cause) state world
  | .read next, state, world => (next state).Keeps conduct invariant ends state world
  | .write changed next, _, world =>
      invariant changed world ∧ next.Keeps conduct invariant ends changed world
  | .ask query next, state, world =>
      ∀ answer after later, conduct query state world answer after later →
        (next answer).Keeps conduct invariant ends after later

variable {conduct : Conduct σ ω} {invariant : σ → ω → Prop}

theorem Keeps.step {ends : Outcome α → σ → ω → Prop} {before after : Situation σ ω α}
    (keeps : before.rest.Keeps conduct invariant ends before.state before.world)
    (step : Situation.Step conduct before after) :
    after.rest.Keeps conduct invariant ends after.state after.world := by
  cases step with
  | read => exact keeps
  | write => exact keeps.2
  | ask accepted => exact keeps _ _ _ accepted

theorem Keeps.reaches {ends : Outcome α → σ → ω → Prop} {before after : Situation σ ω α}
    (keeps : before.rest.Keeps conduct invariant ends before.state before.world)
    (reaches : Situation.Reaches conduct before after) :
    after.rest.Keeps conduct invariant ends after.state after.world := by
  induction reaches with
  | refl => exact keeps
  | tail _ step induction => exact induction.step step

/-- Every end of a routine is one of those stated. -/
theorem Keeps.ends {ends : Outcome α → σ → ω → Prop} {routine : Routine σ α}
    {state after : σ} {world later : ω} {outcome : Outcome α}
    (keeps : routine.Keeps conduct invariant ends state world)
    (ended : routine.Ends conduct state world outcome after later) :
    ends outcome after later := by
  have last := Keeps.reaches keeps ended
  cases outcome <;> exact last

/-- So is the end of each run whose answers are acceptable. -/
theorem Keeps.run {ends : Outcome α → σ → ω → Prop} {surroundings : Surroundings σ ω}
    {routine : Routine σ α} {state : σ} {world : ω}
    (keeps : routine.Keeps conduct invariant ends state world)
    (followed : routine.FollowedBy surroundings conduct state world) :
    ends (routine.run surroundings state world).1 (routine.run surroundings state world).2.1
      (routine.run surroundings state world).2.2 := by
  induction routine generalizing state world with
  | done value => exact keeps
  | fail error => exact keeps
  | halted cause => exact keeps
  | read next induction => exact induction state keeps followed
  | write changed next induction => exact induction keeps.2 followed
  | ask query next induction =>
      exact induction _ (keeps _ _ _ followed.1) followed.2

/-- The surroundings keep an invariant. -/
def Stable (conduct : Conduct σ ω) (invariant : σ → ω → Prop) : Prop :=
  ∀ query state world answer after later,
    conduct query state world answer after later → invariant state world → invariant after later

/-- One step keeps an invariant that the surroundings and the routine keep. -/
theorem Keeps.preserved_step {ends : Outcome α → σ → ω → Prop}
    {before after : Situation σ ω α} (stable : Stable conduct invariant)
    (keeps : before.rest.Keeps conduct invariant ends before.state before.world)
    (step : Situation.Step conduct before after)
    (holds : invariant before.state before.world) : invariant after.state after.world := by
  cases step with
  | read => exact holds
  | write => exact keeps.1
  | ask accepted => exact stable _ _ _ _ _ _ accepted holds

/-- An invariant that the surroundings and the routine keep holds in every
situation that a run comes to. -/
theorem Keeps.preserved {ends : Outcome α → σ → ω → Prop} {before after : Situation σ ω α}
    (reaches : Situation.Reaches conduct before after) (stable : Stable conduct invariant)
    (keeps : before.rest.Keeps conduct invariant ends before.state before.world)
    (holds : invariant before.state before.world) : invariant after.state after.world := by
  induction reaches with
  | refl => exact holds
  | tail earlier step induction =>
      exact (keeps.reaches earlier).preserved_step stable step induction

/-- To know all ends of a routine is to follow it to them. -/
theorem keeps_of_ends {ends : Outcome α → σ → ω → Prop} {routine : Routine σ α} {state : σ}
    {world : ω} (all : ∀ outcome after later,
      routine.Ends conduct state world outcome after later → ends outcome after later) :
    routine.Keeps conduct (fun _ _ => True) ends state world := by
  induction routine generalizing state world with
  | done value => exact all (.value value) state world .refl
  | fail error => exact all (.error error) state world .refl
  | halted cause => exact all (.halted cause) state world .refl
  | read next induction =>
      exact induction state fun outcome after later ended =>
        all outcome after later (.head .read ended)
  | write changed next induction =>
      exact ⟨trivial, induction fun outcome after later ended =>
        all outcome after later (.head .write ended)⟩
  | ask query next induction =>
      intro answer state' world' accepted
      exact induction answer fun outcome after later ended =>
        all outcome after later (.head (.ask accepted) ended)

/-- Given surroundings leave a routine one end. -/
theorem run_eq_of_ends {surroundings : Surroundings σ ω} {routine : Routine σ α}
    {state after : σ} {world later : ω} {outcome : Outcome α}
    (ended : routine.Ends surroundings.conduct state world outcome after later) :
    routine.run surroundings state world = (outcome, after, later) := by
  suffices runs : routine.Keeps surroundings.conduct (fun _ _ => True) (fun outcome after later =>
      routine.run surroundings state world = (outcome, after, later)) state world from
    runs.ends ended
  clear ended
  induction routine generalizing state world with
  | done value => exact rfl
  | fail error => exact rfl
  | halted cause => exact rfl
  | read next induction => exact induction state
  | write changed next induction => exact ⟨trivial, induction⟩
  | ask query next induction =>
      intro answer state' world' answered
      have continues := @induction answer state' world'
      rw [← show (next answer).run surroundings state' world' =
        (Routine.ask query next).run surroundings state world by
          rw [Routine.run, show surroundings.answer query state world = _ from answered]]
      exact continues

/-! ### Rules -/

/-- Of any routine it is known that it ends in some way. -/
theorem Keeps.any (routine : Routine σ α) (state : σ) (world : ω) :
    routine.Keeps conduct (fun _ _ => True) (fun _ _ _ => True) state world :=
  keeps_of_ends fun _ _ _ _ => trivial

theorem Keeps.mono {ends weaker : Outcome α → σ → ω → Prop} {routine : Routine σ α}
    {state : σ} {world : ω} (keeps : routine.Keeps conduct invariant ends state world)
    (weaken : ∀ outcome state world, ends outcome state world → weaker outcome state world) :
    routine.Keeps conduct invariant weaker state world := by
  induction routine generalizing state world with
  | done value => exact weaken _ _ _ keeps
  | fail error => exact weaken _ _ _ keeps
  | halted cause => exact weaken _ _ _ keeps
  | read next induction => exact induction _ keeps
  | write changed next induction => exact ⟨keeps.1, induction keeps.2⟩
  | ask query next induction =>
      intro answer after later accepted
      exact induction _ (keeps answer after later accepted)

/-- A routine keeps what follows from what it keeps. -/
theorem Keeps.mono_invariant {weaker : σ → ω → Prop} {ends : Outcome α → σ → ω → Prop}
    {routine : Routine σ α} {state : σ} {world : ω}
    (keeps : routine.Keeps conduct invariant ends state world)
    (weaken : ∀ state world, invariant state world → weaker state world) :
    routine.Keeps conduct weaker ends state world := by
  induction routine generalizing state world with
  | done value => exact keeps
  | fail error => exact keeps
  | halted cause => exact keeps
  | read next induction => exact induction _ keeps
  | write changed next induction => exact ⟨weaken _ _ keeps.1, induction keeps.2⟩
  | ask query next induction =>
      intro answer after later accepted
      exact induction _ (keeps answer after later accepted)

/-- Fewer acceptable answers leave fewer runs. -/
theorem Keeps.mono_conduct {stricter : Conduct σ ω} {ends : Outcome α → σ → ω → Prop}
    {routine : Routine σ α} {state : σ} {world : ω}
    (keeps : routine.Keeps conduct invariant ends state world)
    (stricter_le : ∀ query state world answer after later,
      stricter query state world answer after later →
        conduct query state world answer after later) :
    routine.Keeps stricter invariant ends state world := by
  induction routine generalizing state world with
  | done value => exact keeps
  | fail error => exact keeps
  | halted cause => exact keeps
  | read next induction => exact induction _ keeps
  | write changed next induction => exact ⟨keeps.1, induction keeps.2⟩
  | ask query next induction =>
      intro answer after later accepted
      exact induction _ (keeps answer after later (stricter_le _ _ _ _ _ _ accepted))

/-- What the surroundings keep of the world is kept by any routine. -/
theorem Keeps.of_stable {holds : ω → Prop} (stable : Stable conduct fun _ world => holds world)
    (routine : Routine σ α) {state : σ} {world : ω} (now : holds world) :
    routine.Keeps conduct (fun _ world => holds world) (fun _ _ world => holds world) state
      world := by
  induction routine generalizing state world with
  | done value => exact now
  | fail error => exact now
  | halted cause => exact now
  | read next induction => exact induction state now
  | write changed next induction => exact ⟨now, induction now⟩
  | ask query next induction =>
      exact fun answer after later accepted =>
        induction answer (stable query state world answer after later accepted now)

/-- What is kept while something is barred is kept until it has happened. -/
theorem Keeps.unless {barred : ω → Prop} {ends : Outcome α → σ → ω → Prop}
    {routine : Routine σ α} {state : σ} {world : ω}
    (remains : Stable conduct fun _ world => barred world)
    (keeps : routine.Keeps (conduct.barring barred) invariant ends state world) :
    routine.Keeps conduct (fun state world => barred world ∨ invariant state world)
      (fun outcome state world => barred world ∨ ends outcome state world) state world := by
  induction routine generalizing state world with
  | done value => exact .inr keeps
  | fail error => exact .inr keeps
  | halted cause => exact .inr keeps
  | read next induction => exact induction state keeps
  | write changed next induction => exact ⟨.inr keeps.1, induction keeps.2⟩
  | ask query next induction =>
      intro answer after later accepted
      by_cases happened : barred later
      · exact ((Keeps.of_stable remains (next answer) happened).mono
          fun _ _ _ holds => .inl holds).mono_invariant fun _ _ holds => .inl holds
      · exact induction answer (keeps answer after later ⟨accepted, happened⟩)

/-- What is kept for two reasons is kept for both. -/
theorem Keeps.and {other : σ → ω → Prop} {ends otherEnds : Outcome α → σ → ω → Prop}
    {routine : Routine σ α} {state : σ} {world : ω}
    (keeps : routine.Keeps conduct invariant ends state world)
    (keepsOther : routine.Keeps conduct other otherEnds state world) :
    routine.Keeps conduct (fun state world => invariant state world ∧ other state world)
      (fun outcome state world => ends outcome state world ∧ otherEnds outcome state world)
      state world := by
  induction routine generalizing state world with
  | done value => exact ⟨keeps, keepsOther⟩
  | fail error => exact ⟨keeps, keepsOther⟩
  | halted cause => exact ⟨keeps, keepsOther⟩
  | read next induction => exact induction _ keeps keepsOther
  | write changed next induction =>
      exact ⟨⟨keeps.1, keepsOther.1⟩, induction keeps.2 keepsOther.2⟩
  | ask query next induction =>
      intro answer after later accepted
      exact induction _ (keeps answer after later accepted)
        (keepsOther answer after later accepted)

end Routine

/-- Ends with a value that meets one condition, or without one under another. -/
def Outcome.Meets (met : α → σ → ω → Prop) (stopped : σ → ω → Prop) :
    Outcome α → σ → ω → Prop
  | .value result, state, world => met result state world
  | .error _, state, world => stopped state world
  | .halted _, state, world => stopped state world

/-- How an attempt ends at a routine that ends in stated ways. -/
def Outcome.Attempted (ends : Outcome α → σ → ω → Prop) :
    Outcome (Except SyncError α) → σ → ω → Prop
  | .value (.ok result), state, world => ends (.value result) state world
  | .value (.error cause), state, world => ends (.error cause) state world
  | .error _, _, _ => False
  | .halted cause, state, world => ends (.halted cause) state world

theorem Outcome.Meets.exists_value {met : α → σ → ω → Prop} {outcome : Outcome α} {state : σ}
    {world : ω} (meets : Outcome.Meets met (fun _ _ => False) outcome state world) :
    ∃ value, outcome = .value value ∧ met value state world := by
  cases outcome with
  | value value => exact ⟨value, rfl, meets⟩
  | error error => exact meets.elim
  | halted cause => exact meets.elim

namespace Routine

variable {conduct : Conduct σ ω} {invariant stopped : σ → ω → Prop}

theorem Keeps.weaken {met weaker : α → σ → ω → Prop} {weakerStopped : σ → ω → Prop}
    {routine : Routine σ α} {state : σ} {world : ω}
    (keeps : routine.Keeps conduct invariant (Outcome.Meets met stopped) state world)
    (weakenMet : ∀ value state world, met value state world → weaker value state world)
    (weakenStopped : ∀ state world, stopped state world → weakerStopped state world) :
    routine.Keeps conduct invariant (Outcome.Meets weaker weakerStopped) state world := by
  refine keeps.mono fun outcome state world => ?_
  cases outcome with
  | value value => exact weakenMet value state world
  | error error => exact weakenStopped state world
  | halted cause => exact weakenStopped state world

/-- What is known of a value includes that the routine may end with it. -/
theorem Keeps.with_ends {met : α → σ → ω → Prop} {routine : Routine σ α} {state : σ} {world : ω}
    (keeps : routine.Keeps conduct invariant (Outcome.Meets met stopped) state world) :
    routine.Keeps conduct (fun _ _ => True) (Outcome.Meets (fun value after later =>
      met value after later ∧ routine.Ends conduct state world (.value value) after later)
        stopped) state world := by
  apply keeps_of_ends
  intro outcome after later ended
  have last := keeps.ends ended
  cases outcome with
  | value value => exact ⟨last, ended⟩
  | error error => exact last
  | halted cause => exact last

/-- Reading a part of the state takes no time. -/
theorem Keeps.get_andThen {part : σ → α} {second : α → Routine σ β}
    {ends : Outcome β → σ → ω → Prop} {state : σ} {world : ω}
    (continues : (second (part state)).Keeps conduct invariant ends state world) :
    (Routine.get part >>= second).Keeps conduct invariant ends state world :=
  continues

/-- In a sequence, the second routine starts wherever the first may end with a
value, and the other ends of the first are ends of both. -/
theorem Keeps.sequence {first : Routine σ α} {second : α → Routine σ β}
    {ends : Outcome α → σ → ω → Prop} {endsThen : Outcome β → σ → ω → Prop} {state : σ} {world : ω}
    (keeps : first.Keeps conduct invariant ends state world)
    (continues : ∀ value state world, ends (.value value) state world →
      (second value).Keeps conduct invariant endsThen state world)
    (fails : ∀ error state world, ends (.error error) state world →
      endsThen (.error error) state world)
    (halts : ∀ cause state world, ends (.halted cause) state world →
      endsThen (.halted cause) state world) :
    (first >>= second).Keeps conduct invariant endsThen state world := by
  rw [bind_eq]
  induction first generalizing state world with
  | done value => exact continues value state world keeps
  | fail error => exact fails error state world keeps
  | halted cause => exact halts cause state world keeps
  | read next induction => exact induction state keeps
  | write changed next induction => exact ⟨keeps.1, induction keeps.2⟩
  | ask query next induction =>
      intro answer after later accepted
      exact induction answer (keeps answer after later accepted)

/-- The same where nothing is said of the error that a first routine ends with. -/
theorem Keeps.bind {first : Routine σ α} {second : α → Routine σ β}
    {met : α → σ → ω → Prop} {ends : Outcome β → σ → ω → Prop} {state : σ} {world : ω}
    (keeps : first.Keeps conduct invariant (Outcome.Meets met stopped) state world)
    (continues : ∀ value state world, met value state world →
      (second value).Keeps conduct invariant ends state world)
    (fails : ∀ error state world, stopped state world → ends (.error error) state world)
    (halts : ∀ cause state world, stopped state world → ends (.halted cause) state world) :
    (first >>= second).Keeps conduct invariant ends state world :=
  Keeps.sequence keeps continues fails halts

/-- The same where nothing is said of the first routine at all. -/
theorem Keeps.after_any {first : Routine σ α} {second : α → Routine σ β}
    {met : β → σ → ω → Prop} {state : σ} {world : ω}
    (continues : ∀ value after later, (second value).Keeps conduct (fun _ _ => True)
      (Outcome.Meets met fun _ _ => True) after later) :
    (first >>= second).Keeps conduct (fun _ _ => True) (Outcome.Meets met fun _ _ => True) state
      world :=
  (Keeps.any first state world).sequence (fun value after later _ => continues value after later)
    (fun _ _ _ _ => trivial) fun _ _ _ _ => trivial

/-- The same for a sequence whose ends without a value are all alike. -/
theorem Keeps.andThen {first : Routine σ α} {second : α → Routine σ β}
    {met : α → σ → ω → Prop} {then_ : β → σ → ω → Prop} {state : σ} {world : ω}
    (keeps : first.Keeps conduct invariant (Outcome.Meets met stopped) state world)
    (continues : ∀ value state world, met value state world →
      (second value).Keeps conduct invariant (Outcome.Meets then_ stopped) state world) :
    (first >>= second).Keeps conduct invariant (Outcome.Meets then_ stopped) state world :=
  keeps.bind continues (fun _ _ _ holds => holds) fun _ _ _ holds => holds

/-- The routine ends with a value, unless it breaks off on the way there. It asks nothing
and changes nothing. -/
inductive Computes (value : α) : Routine σ α → Prop
  | found : Computes value (.done value)
  | overflow (operation : Word.Operation) : Computes value (.halted (.overflow operation))

theorem Computes.sum (left right : Nat) :
    (Routine.sum left right : Routine σ Nat).Computes (left + right) := by
  rw [Routine.sum]
  split
  · exact .found
  · exact .overflow _

theorem Computes.difference (left right : Nat) :
    (Routine.difference left right : Routine σ Nat).Computes (left - right) := by
  rw [Routine.difference]
  split
  · exact .found
  · exact .overflow _

theorem sum_eq_done {left right : Nat} (isWord : left + right < Word.size 64) :
    (Routine.sum left right : Routine σ Nat) = .done (left + right) :=
  if_pos isWord

theorem difference_eq_done {left right : Nat} (ordered : right ≤ left) :
    (Routine.difference left right : Routine σ Nat) = .done (left - right) :=
  if_pos ordered

theorem Computes.andThen {first : Routine σ α} {second : α → Routine σ β} {value : α} {result : β}
    (computes : first.Computes value) (computesThen : (second value).Computes result) :
    (first >>= second).Computes result := by
  cases computes with
  | found => exact computesThen
  | overflow operation => exact .overflow operation

theorem Computes.keeps {routine : Routine σ α} {value : α} {ends : Outcome α → σ → ω → Prop}
    {state : σ} {world : ω} (computes : routine.Computes value)
    (found : ends (.value value) state world)
    (halts : ∀ operation, ends (.halted (.overflow operation)) state world) :
    routine.Keeps conduct invariant ends state world := by
  cases computes with
  | found => exact found
  | overflow operation => exact halts operation

/-- A computation in front of a routine only adds that it may break off. -/
theorem Keeps.computes {first : Routine σ α} {second : α → Routine σ β} {value : α}
    {ends : Outcome β → σ → ω → Prop} {state : σ} {world : ω} (computes : first.Computes value)
    (continues : (second value).Keeps conduct invariant ends state world)
    (halts : ∀ operation, first = .halted (.overflow operation) →
      ends (.halted (.overflow operation)) state world) :
    (first >>= second).Keeps conduct invariant ends state world := by
  cases computes with
  | found => exact continues
  | overflow operation => exact halts operation rfl

/-- An attempt ends with a value even where the routine fails. -/
theorem Keeps.attempted {routine : Routine σ α} {ends : Outcome α → σ → ω → Prop} {state : σ}
    {world : ω} (keeps : routine.Keeps conduct invariant ends state world) :
    routine.attempt.Keeps conduct invariant (Outcome.Attempted ends) state world := by
  induction routine generalizing state world with
  | done value => exact keeps
  | fail error => exact keeps
  | halted cause => exact keeps
  | read next induction => exact induction state keeps
  | write changed next induction => exact ⟨keeps.1, induction keeps.2⟩
  | ask query next induction =>
      intro answer after later accepted
      exact induction answer (keeps answer after later accepted)

/-- The same where nothing is said of the error that the routine fails with. -/
theorem Keeps.attempt {routine : Routine σ α} {met : α → σ → ω → Prop} {state : σ} {world : ω}
    (keeps : routine.Keeps conduct invariant (Outcome.Meets met stopped) state world) :
    routine.attempt.Keeps conduct invariant
      (Outcome.Meets (fun
        | .ok value => met value
        | .error _ => stopped) stopped) state world := by
  refine (Keeps.attempted keeps).mono fun outcome after later holds => ?_
  rcases outcome with (error | value) | error | _
  · exact holds
  · exact holds
  · exact holds.elim
  · exact holds

/-- What holds wherever a loop stands is kept by each of its turns. -/
theorem Keeps.iterate {step : β → Routine σ (β ⊕ α)} {met : α → σ → ω → Prop}
    (during : β → σ → ω → Prop)
    (turn : ∀ place state world, during place state world →
      (step place).Keeps conduct invariant (Outcome.Meets (fun
        | .inl place => during place
        | .inr value => met value) stopped) state world)
    (stops : ∀ place state world, during place state world → stopped state world)
    (turns : Nat) {place : β} {state : σ} {world : ω} (holds : during place state world) :
    (Routine.iterate step turns place).Keeps conduct invariant (Outcome.Meets met stopped) state
      world := by
  induction turns generalizing place state world with
  | zero => exact stops place state world holds
  | succ turns induction =>
      apply (turn place state world holds).andThen
      intro result after later holdsThen
      cases result with
      | inl place => exact induction holdsThen
      | inr value => exact holdsThen

/-! ### One after the other -/

/-- Pieces of work, each of them done whatever became of the ones before. -/
def inTurn : List (Routine σ Unit) → Routine σ Unit
  | [] => .done ()
  | work :: rest => do
      let _ ← work.attempt
      inTurn rest

/-- What each piece of work keeps, all of them keep. -/
theorem Keeps.inTurn {works : List (Routine σ Unit)} {stays : σ → ω → Prop} {state : σ}
    {world : ω} (each : ∀ work ∈ works, ∀ state world, stays state world →
      work.Keeps conduct invariant (Outcome.Meets (fun _ => stays) stays) state world)
    (holds : stays state world) :
    (inTurn works).Keeps conduct invariant (Outcome.Meets (fun _ => stays) stays) state world := by
  induction works generalizing state world with
  | nil => exact holds
  | cons work rest induction =>
      refine (each work List.mem_cons_self state world holds).attempt.andThen ?_
      intro outcome after later holdsThen
      apply induction fun next member => each next (List.mem_cons_of_mem work member)
      cases outcome <;> exact holdsThen

end Routine

end ReorgSync
