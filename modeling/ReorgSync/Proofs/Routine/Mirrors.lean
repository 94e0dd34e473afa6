import ReorgSync.Proofs.Routine.Conduct

namespace ReorgSync

/-! Two routines may do the same on different kinds of states: as long as the states are
related, one asks what the other asks, and ends as the other ends. What is known of one is
then true of the other. The relation may be lost where the other one writes a state that
does not fit, and nothing is said of what comes behind that. -/

variable {σ τ : Type}

namespace Routine

/-- Before it asks anything, the routine writes a state that does not fit. -/
inductive Outgrows (fits : τ → Prop) : Routine τ α → Prop
  | write {state : τ} {next : Routine τ α} (unfit : ¬ fits state) : Outgrows fits (.write state next)
  | read {next : τ → Routine τ α} (outgrows : ∀ state, Outgrows fits (next state)) :
      Outgrows fits (.read next)

/-- A routine does on states what another one does on those they are related to, unless the
other one outgrows it. -/
inductive Mirrors (related : σ → τ → Prop) (fits : τ → Prop) : Routine σ α → Routine τ α → Prop
  | done (value : α) : Mirrors related fits (.done value) (.done value)
  | fail (error : SyncError) : Mirrors related fits (.fail error) (.fail error)
  | halted (cause : Halt) : Mirrors related fits (.halted cause) (.halted cause)
  | read {next : σ → Routine σ α} {other : τ → Routine τ α}
      (follows : ∀ state shown, related state shown →
        Mirrors related fits (next state) (other shown)) :
      Mirrors related fits (.read next) (.read other)
  | write {changed : σ} {shown : τ} {next : Routine σ α} {other : Routine τ α}
      (isRelated : related changed shown) (follows : Mirrors related fits next other) :
      Mirrors related fits (.write changed next) (.write shown other)
  | ask {query : Query} {next : query.Answer → Routine σ α} {other : query.Answer → Routine τ α}
      (follows : ∀ answer, Mirrors related fits (next answer) (other answer)) :
      Mirrors related fits (.ask query next) (.ask query other)
  | outgrown {routine : Routine σ α} {other : Routine τ α} (outgrows : other.Outgrows fits) :
      Mirrors related fits routine other

/-! ## Combinations -/

namespace Outgrows

variable {fits : τ → Prop}

theorem andThen {first : Routine τ α} (outgrows : first.Outgrows fits) (second : α → Routine τ β) :
    (first >>= second).Outgrows fits := by
  rw [bind_eq]
  induction outgrows with
  | write unfit => exact .write unfit
  | read _ induction => exact .read induction

theorem attempt {routine : Routine τ α} (outgrows : routine.Outgrows fits) :
    routine.attempt.Outgrows fits := by
  induction outgrows with
  | write unfit => exact .write unfit
  | read _ induction => exact .read induction

theorem cancelable {routine : Routine τ α} (outgrows : routine.Outgrows fits) :
    routine.cancelable.Outgrows fits := by
  induction outgrows with
  | write unfit => exact .write unfit
  | read _ induction => exact .read induction

end Outgrows

namespace Mirrors

variable {related : σ → τ → Prop} {fits : τ → Prop}

theorem andThen {first : Routine σ α} {otherFirst : Routine τ α} {second : α → Routine σ β}
    {otherSecond : α → Routine τ β} (mirrors : first.Mirrors related fits otherFirst)
    (continues : ∀ value, (second value).Mirrors related fits (otherSecond value)) :
    (first >>= second).Mirrors related fits (otherFirst >>= otherSecond) := by
  rw [bind_eq, bind_eq]
  induction mirrors with
  | done value => exact continues value
  | fail error => exact .fail error
  | halted cause => exact .halted cause
  | read _ induction => exact .read induction
  | write isRelated _ induction => exact .write isRelated induction
  | ask _ induction => exact .ask induction
  | outgrown outgrows => exact .outgrown (outgrows.andThen otherSecond)

theorem get {part : σ → α} {otherPart : τ → α}
    (same : ∀ state shown, related state shown → part state = otherPart shown) :
    (Routine.get part).Mirrors related fits (Routine.get otherPart) := by
  refine .read fun state shown isRelated => ?_
  rw [same state shown isRelated]
  exact .done _

theorem modify {change : σ → σ} {otherChange : τ → τ}
    (keeps : ∀ state shown, related state shown → related (change state) (otherChange shown)) :
    (Routine.modify change).Mirrors related fits (Routine.modify otherChange) :=
  .read fun state shown isRelated => .write (keeps state shown isRelated) (.done ())

theorem ofExcept (outcome : Except SyncError α) :
    (Routine.ofExcept outcome : Routine σ α).Mirrors related fits (Routine.ofExcept outcome) := by
  cases outcome with
  | ok value => exact .done value
  | error error => exact .fail error

theorem query (question : Query) :
    (Routine.query question : Routine σ _).Mirrors related fits (Routine.query question) :=
  .ask .done

theorem node (call : Node.Call) :
    (Routine.node call : Routine σ _).Mirrors related fits (Routine.node call) := by
  refine .ask fun reply => ?_
  cases reply with
  | ok value => exact .done value
  | error error => exact .fail (.node error)

theorem sleep (time : Nat) :
    (Routine.sleep time : Routine σ Unit).Mirrors related fits (Routine.sleep time) := by
  refine .ask fun canceled => ?_
  cases canceled with
  | true => exact .fail .canceled
  | false => exact .done ()

theorem checkCanceled :
    (Routine.checkCanceled : Routine σ Unit).Mirrors related fits Routine.checkCanceled := by
  refine .ask fun canceled => ?_
  cases canceled with
  | true => exact .fail .canceled
  | false => exact .done ()

theorem sum (left right : Nat) :
    (Routine.sum left right : Routine σ Nat).Mirrors related fits (Routine.sum left right) := by
  rw [Routine.sum, Routine.sum]
  split
  · exact .done _
  · exact .halted _

theorem difference (left right : Nat) :
    (Routine.difference left right : Routine σ Nat).Mirrors related fits
      (Routine.difference left right) := by
  rw [Routine.difference, Routine.difference]
  split
  · exact .done _
  · exact .halted _

theorem attempt {routine : Routine σ α} {other : Routine τ α}
    (mirrors : routine.Mirrors related fits other) :
    routine.attempt.Mirrors related fits other.attempt := by
  induction mirrors with
  | done value => exact .done (Except.ok value)
  | fail error => exact .done (Except.error error)
  | halted cause => exact .halted cause
  | read _ induction => exact .read induction
  | write isRelated _ induction => exact .write isRelated induction
  | ask _ induction => exact .ask induction
  | outgrown outgrows => exact .outgrown outgrows.attempt

theorem cancelable {routine : Routine σ α} {other : Routine τ α}
    (mirrors : routine.Mirrors related fits other) :
    routine.cancelable.Mirrors related fits other.cancelable := by
  induction mirrors with
  | done value => exact .done value
  | fail error => exact .fail error
  | halted cause => exact .halted cause
  | read _ induction => exact .read induction
  | write isRelated _ induction => exact .write isRelated induction
  | outgrown outgrows => exact .outgrown outgrows.cancelable
  | @ask query _ _ _ induction =>
      cases query with
      | node call =>
          rw [Routine.cancelable, Routine.cancelable]
          refine .ask fun reply => ?_
          cases reply with
          | none => exact .fail .canceled
          | some reply => exact induction reply
      | pause time =>
          rw [Routine.cancelable, Routine.cancelable]
          refine .ask fun canceled => ?_
          cases canceled with
          | true => exact .fail .canceled
          | false => exact induction ()
      | _ =>
          simp only [Routine.cancelable]
          exact .ask induction

theorem guarded {routine : Routine σ α} {other : Routine τ α}
    (mirrors : routine.Mirrors related fits other) :
    routine.guarded.Mirrors related fits other.guarded :=
  checkCanceled.andThen fun _ => mirrors.cancelable

theorem releasing {routine : Routine σ α} {other : Routine τ α}
    (mirrors : routine.Mirrors related fits other) :
    routine.releasing.Mirrors related fits other.releasing :=
  mirrors.attempt.andThen fun outcome => (query .release).andThen fun _ => ofExcept outcome

theorem exclusively {routine : Routine σ α} {other : Routine τ α}
    (mirrors : routine.Mirrors related fits other) :
    routine.exclusively.Mirrors related fits other.exclusively :=
  (query .acquire).andThen fun _ => mirrors.releasing

theorem guardedExclusively {routine : Routine σ α} {other : Routine τ α}
    (mirrors : routine.Mirrors related fits other) :
    routine.guardedExclusively.Mirrors related fits other.guardedExclusively := by
  refine checkCanceled.andThen fun _ => (query .acquireCancelable).andThen fun canceled => ?_
  cases canceled with
  | true => exact .fail .canceled
  | false => exact mirrors.cancelable.releasing

/-- What is done on a part that related states have in common. -/
theorem zoom {part : σ → ρ} {otherPart : τ → ρ} {replace : ρ → σ → σ} {otherReplace : ρ → τ → τ}
    (same : ∀ state shown, related state shown → part state = otherPart shown)
    (keeps : ∀ changed state shown, related state shown →
      related (replace changed state) (otherReplace changed shown)) (routine : Routine ρ α) :
    (routine.zoom part replace).Mirrors related fits (routine.zoom otherPart otherReplace) := by
  induction routine with
  | done value => exact .done value
  | fail error => exact .fail error
  | halted cause => exact .halted cause
  | read next induction =>
      refine .read fun state shown isRelated => ?_
      rw [same state shown isRelated]
      exact induction (otherPart shown)
  | write changed next induction =>
      exact .read fun state shown isRelated => .write (keeps changed state shown isRelated) induction
  | ask query next induction => exact .ask induction

theorem iterate {step : β → Routine σ (β ⊕ α)} {otherStep : β → Routine τ (β ⊕ α)}
    (turn : ∀ place, (step place).Mirrors related fits (otherStep place)) (turns : Nat)
    (place : β) :
    (Routine.iterate step turns place).Mirrors related fits
      (Routine.iterate otherStep turns place) := by
  induction turns generalizing place with
  | zero => exact .halted .exhausted
  | succ turns induction =>
      refine (turn place).andThen fun result => ?_
      cases result with
      | inl place => exact induction place
      | inr value => exact .done value

end Mirrors

end Routine

/-! ## Runs -/

/-- What surroundings do beside a state, others may do beside all that it is related to. -/
def Conduct.MirroredBy (conduct : Conduct σ ω) (related : σ → τ → Prop) (other : Conduct τ ω) :
    Prop :=
  ∀ query state shown world answer after later, related state shown →
    conduct query state world answer after later →
      ∃ shownAfter, related after shownAfter ∧ other query shown world answer shownAfter later

/-- Two runs are at the same point. -/
structure Situation.Mirrors (related : σ → τ → Prop) (fits : τ → Prop) (now : Situation σ ω α)
    (other : Situation τ ω α) : Prop where
  rest : now.rest.Mirrors related fits other.rest
  state : related now.state other.state
  world : now.world = other.world

variable {related : σ → τ → Prop} {fits : τ → Prop} {conduct : Conduct σ ω} {other : Conduct τ ω}

theorem Routine.Outgrows.reaches {routine : Routine τ α} (outgrows : routine.Outgrows fits)
    (other : Conduct τ ω) (shown : τ) (world : ω) :
    ∃ now, Situation.Reaches other ⟨routine, shown, world⟩ now ∧ ¬ fits now.state := by
  induction outgrows with
  | write unfit => exact ⟨_, .single .write, unfit⟩
  | read _ induction =>
      rcases induction shown with ⟨now, reached, unfit⟩
      exact ⟨now, .head .read reached, unfit⟩

namespace Situation.Mirrors

variable {before after : Situation σ ω α} {shown : Situation τ ω α}

/-- One step is a step of the other run, unless that one is about to write what does not
fit. -/
theorem step (mirrored : conduct.MirroredBy related other) (mirrors : before.Mirrors related fits shown)
    (step : Step conduct before after) :
    (∃ next, Step other shown next ∧ after.Mirrors related fits next) ∨
      shown.rest.Outgrows fits := by
  rcases shown with ⟨rest, state, world⟩
  rcases mirrors with ⟨sameRest, isRelated, sameWorld⟩
  dsimp only at sameRest isRelated sameWorld ⊢
  cases step with
  | read =>
      cases sameRest with
      | read follows => exact .inl ⟨_, .read, follows _ _ isRelated, isRelated, sameWorld⟩
      | outgrown outgrows => exact .inr outgrows
  | write =>
      cases sameRest with
      | write changed follows => exact .inl ⟨_, .write, follows, changed, sameWorld⟩
      | outgrown outgrows => exact .inr outgrows
  | ask accepted =>
      cases sameRest with
      | ask follows =>
          rcases mirrored _ _ _ _ _ _ _ isRelated accepted with ⟨shownAfter, relatedThen, isOther⟩
          rw [← sameWorld]
          exact .inl ⟨_, .ask isOther, follows _, relatedThen, rfl⟩
      | outgrown outgrows => exact .inr outgrows

/-- Whatever a run comes to, the other one comes to, unless it comes to what does not fit. -/
theorem reaches (mirrored : conduct.MirroredBy related other)
    (mirrors : before.Mirrors related fits shown) (reached : Reaches conduct before after) :
    ∃ now, Reaches other shown now ∧ (after.Mirrors related fits now ∨ ¬ fits now.state) := by
  induction reached with
  | refl => exact ⟨shown, .refl, .inl mirrors⟩
  | tail _ last induction =>
      rcases induction with ⟨now, reached, mirrors | unfit⟩
      · rcases mirrors.step mirrored last with ⟨next, step, mirrors⟩ | outgrows
        · exact ⟨next, .tail reached step, .inl mirrors⟩
        · rcases outgrows.reaches other now.state now.world with ⟨unfit, later, isUnfit⟩
          exact ⟨unfit, reached.trans later, .inr isUnfit⟩
      · exact ⟨now, reached, .inr unfit⟩

end Situation.Mirrors

namespace Routine.Mirrors

variable {routine : Routine σ α} {otherRoutine : Routine τ α} {state after : σ} {shown : τ}
  {world later : ω} {outcome : Outcome α}

theorem eq_rest (mirrors : outcome.rest.Mirrors related fits otherRoutine) :
    otherRoutine = outcome.rest ∨ otherRoutine.Outgrows fits := by
  cases outcome <;> cases mirrors with
  | outgrown outgrows => exact .inr outgrows
  | _ => exact .inl rfl

/-- However a routine ends, the other one ends, unless it comes to what does not fit. -/
theorem ends (mirrored : conduct.MirroredBy related other)
    (mirrors : routine.Mirrors related fits otherRoutine) (isRelated : related state shown)
    (ended : routine.Ends conduct state world outcome after later) :
    (∃ shownAfter, related after shownAfter ∧
      otherRoutine.Ends other shown world outcome shownAfter later) ∨
    ∃ now, Situation.Reaches other ⟨otherRoutine, shown, world⟩ now ∧ ¬ fits now.state := by
  have begins : Situation.Mirrors related fits ⟨routine, state, world⟩
    ⟨otherRoutine, shown, world⟩ := ⟨mirrors, isRelated, rfl⟩
  rcases begins.reaches mirrored ended with ⟨⟨rest, shownAfter, _⟩, reached, mirrors | unfit⟩
  · rcases mirrors with ⟨sameRest, relatedThen, rfl⟩
    rcases sameRest.eq_rest with rfl | outgrows
    · exact .inl ⟨shownAfter, relatedThen, reached⟩
    · rcases outgrows.reaches other shownAfter later with ⟨now, further, unfit⟩
      exact .inr ⟨now, reached.trans further, unfit⟩
  · exact .inr ⟨_, reached, unfit⟩

/-- So it is in given surroundings. -/
theorem run {surroundings : Surroundings σ ω} {others : Surroundings τ ω}
    (mirrored : surroundings.conduct.MirroredBy related others.conduct)
    (mirrors : routine.Mirrors related fits otherRoutine) (isRelated : related state shown)
    (ran : routine.run surroundings state world = (outcome, after, later)) :
    (∃ shownAfter, related after shownAfter ∧
      otherRoutine.run others shown world = (outcome, shownAfter, later)) ∨
    ∃ now, Situation.Reaches others.conduct ⟨otherRoutine, shown, world⟩ now ∧
      ¬ fits now.state := by
  have follows : surroundings.Follows surroundings.conduct := fun _ _ _ _ _ _ accepted => accepted
  have ended := ends_run follows routine state world
  rw [ran] at ended
  rcases mirrors.ends mirrored isRelated ended with ⟨shownAfter, relatedThen, ended⟩ | unfit
  · exact .inl ⟨shownAfter, relatedThen, run_eq_of_ends ended⟩
  · exact .inr unfit

end Routine.Mirrors

end ReorgSync
