import ReorgSync.Heads.Source
import ReorgSync.Proofs.Routine.Attains
import ReorgSync.Proofs.Routine.Loops

namespace ReorgSync

/-! A source of heads and its handler, watched. What comes to the source, what it hands over
and how that ends, and what ends the source from outside are kept in order, beside the state.
The questions of the handler itself are its own affair. -/

namespace Heads

/-- What ends a source, if its handler does not. -/
inductive Stop where
  | canceled
  | closed
  | refused (error : NodeError)

def Stop.outcome : Stop → Outcome Unit
  | .canceled => .value ()
  | .closed => .error (.node (.transport "head subscription closed"))
  | .refused error => .error (.node error)

inductive Moment (ε : Type) where
  | came (event : ε)
  | handed (block : Block) (outcome : Except SyncError Unit)
  | stopped (stop : Stop)

/-- A state, and the moments of its source until then. -/
structure Watched (σ ε : Type) where
  state : σ
  moments : List (Moment ε)

/-- The moments of a source, told by a question and its answer. -/
abbrev Watch (ε : Type) : Type :=
  (query : Query) → query.Answer → List (Moment ε)

end Heads

open Heads (Moment Watch Watched Stop)

/-- The same surroundings, with the moments that a watch tells. -/
def Surroundings.watching (surroundings : Surroundings σ ω) (watch : Watch ε) :
    Surroundings (Watched σ ε) ω where
  answer query watched world :=
    let (answer, after, later) := surroundings.answer query watched.state world
    (answer, ⟨after, watched.moments ++ watch query answer⟩, later)

/-- Any answers, with the moments that a watch tells. -/
def Conduct.watched (watch : Watch ε) : Conduct (Watched σ ε) ω :=
  fun query watched _ answer after _ => after.moments = watched.moments ++ watch query answer

theorem Surroundings.watching_follows (surroundings : Surroundings σ ω) (watch : Watch ε) :
    (surroundings.watching watch).Follows (Conduct.watched watch) := by
  intro query watched world answer after later answered
  cases answered
  rfl

namespace Heads

/-- The same handler, with a moment for each block that it is handed. -/
def recorded (handler : Block → Routine σ Unit) (block : Block) :
    Routine (Watched σ ε) Unit := do
  let before ← Routine.get Watched.moments
  let outcome ←
    ((handler block).zoom Watched.state fun state watched => { watched with state }).attempt
  Routine.modify fun watched => { watched with moments := before ++ [.handed block outcome] }
  Routine.ofExcept outcome

/-! ## Being watched makes no difference -/

section

variable {surroundings : Surroundings σ ω} {watch : Watch ε}

/-- A routine on the watched state that is the other one but for the moments. -/
def Shows (surroundings : Surroundings σ ω) (watch : Watch ε)
    (watching : Routine (Watched σ ε) α) (plain : Routine σ α) : Prop :=
  ∀ state moments world,
    let ended := watching.run (surroundings.watching watch) ⟨state, moments⟩ world
    plain.run surroundings state world = (ended.1, ended.2.1.state, ended.2.2)

namespace Shows

theorem done (value : α) : Shows surroundings watch (.done value) (.done value) :=
  fun _ _ _ => rfl

theorem fail (cause : SyncError) :
    Shows surroundings watch (.fail cause : Routine _ α) (.fail cause) :=
  fun _ _ _ => rfl

theorem query (question : Query) :
    Shows surroundings watch (.query question) (.query question) :=
  fun _ _ _ => rfl

theorem andThen {watching : Routine (Watched σ ε) α} {plain : Routine σ α}
    {watchingThen : α → Routine (Watched σ ε) β} {plainThen : α → Routine σ β}
    (same : Shows surroundings watch watching plain)
    (sameThen : ∀ value, Shows surroundings watch (watchingThen value) (plainThen value)) :
    Shows surroundings watch (watching >>= watchingThen) (plain >>= plainThen) := by
  intro state moments world
  have first := same state moments world
  dsimp only at first ⊢
  rw [Routine.bind_eq, Routine.bind_eq, Routine.run_bind, Routine.run_bind, first]
  generalize watching.run (surroundings.watching watch) ⟨state, moments⟩ world = ended
  rcases ended with ⟨outcome, after, later⟩
  cases outcome with
  | value value => exact sameThen value after.state after.moments later
  | error cause => rfl
  | halted cause => rfl

theorem attempt {watching : Routine (Watched σ ε) α} {plain : Routine σ α}
    (same : Shows surroundings watch watching plain) :
    Shows surroundings watch watching.attempt plain.attempt := by
  intro state moments world
  have same := same state moments world
  dsimp only at same ⊢
  rw [Routine.run_attempt, Routine.run_attempt, same]

theorem zoomed (routine : Routine σ α) :
    Shows surroundings watch
      (routine.zoom Watched.state fun state watched => { watched with state }) routine := by
  intro state moments world
  induction routine generalizing state moments world with
  | done value => rfl
  | fail cause => rfl
  | halted cause => rfl
  | read next induction => exact induction state state moments world
  | write changed next induction => exact induction changed moments world
  | ask query next induction => exact induction _ _ _ _

/-- Moments that are looked up, and moments that are kept, are not shown. -/
theorem remembering {watching : List (Moment ε) → Routine (Watched σ ε) α} {plain : Routine σ α}
    (same : ∀ moments, Shows surroundings watch (watching moments) plain) :
    Shows surroundings watch (Routine.get Watched.moments >>= watching) plain :=
  fun state moments world => same moments state moments world

theorem keeping {watching : Routine (Watched σ ε) α} {plain : Routine σ α}
    (moments : List (Moment ε)) (same : Shows surroundings watch watching plain) :
    Shows surroundings watch
      (Routine.modify (fun watched => { watched with moments }) >>= fun _ => watching) plain :=
  fun state _ world => same state moments world

theorem ofExcept (outcome : Except SyncError α) :
    Shows surroundings watch (.ofExcept outcome) (.ofExcept outcome) := by
  cases outcome with
  | ok value => exact done value
  | error cause => exact fail cause

theorem recorded (handler : Block → Routine σ Unit) (block : Block) :
    Shows surroundings watch (recorded handler block) (handler block) := by
  rw [← Routine.attempt_andThen_ofExcept (handler block)]
  refine remembering fun before => ?_
  refine (zoomed (handler block)).attempt.andThen fun outcome => ?_
  exact keeping _ (ofExcept outcome)

theorem iterate {watching : γ → Routine (Watched σ ε) (γ ⊕ α)} {plain : γ → Routine σ (γ ⊕ α)}
    (turn : ∀ place, Shows surroundings watch (watching place) (plain place)) (turns : Nat)
    (place : γ) :
    Shows surroundings watch (.iterate watching turns place) (.iterate plain turns place) := by
  induction turns generalizing place with
  | zero => exact fun _ _ _ => rfl
  | succ turns induction =>
      refine (turn place).andThen fun result => ?_
      cases result with
      | inl next => exact induction next
      | inr value => exact done value

end Shows

end

end Heads

end ReorgSync
