import ReorgSync.Proofs.Routine.Conduct

namespace ReorgSync

/-! A loop is cut off by a bound on its turns, and what is true of the loop itself is
true wherever it stands between two turns, however many those were. So a loop is followed
here turn by turn: how it gets from one place to the next, how it ends, and how many turns
it can take if each of them brings something down. -/

/-- Where a loop stands between two turns. -/
structure Standing (σ ω β : Type) where
  place : β
  state : σ
  world : ω

/-- How a turn ends if its loop is to end so. -/
def Outcome.returning : Outcome α → Outcome (β ⊕ α)
  | .value result => .value (.inr result)
  | .error cause => .error cause
  | .halted cause => .halted cause

namespace Routine

/-- One turn of a loop that goes on behind it. -/
def Turn (conduct : Conduct σ ω) (step : β → Routine σ (β ⊕ α)) (now next : Standing σ ω β) :
    Prop :=
  (step now.place).Ends conduct now.state now.world (.value (.inl next.place)) next.state next.world

/-- So many turns of a loop. -/
inductive Turns (conduct : Conduct σ ω) (step : β → Routine σ (β ⊕ α))
    (begun : Standing σ ω β) : Nat → Standing σ ω β → Prop
  | none : Turns conduct step begun 0 begun
  | more {count : Nat} {now next : Standing σ ω β} (turns : Turns conduct step begun count now)
      (turn : Turn conduct step now next) : Turns conduct step begun (count + 1) next

/-- One turn of a loop that ends with it. -/
def Halts (conduct : Conduct σ ω) (step : β → Routine σ (β ⊕ α)) (last : Standing σ ω β)
    (after : σ) (later : ω) (outcome : Outcome α) : Prop :=
  (step last.place).Ends conduct last.state last.world outcome.returning after later

section

variable {conduct : Conduct σ ω} {step : β → Routine σ (β ⊕ α)} {begun now : Standing σ ω β}
  {count : Nat} {state after : σ} {world later : ω}

theorem turn_of_run {surroundings : Surroundings σ ω} {next : β}
    (follows : surroundings.Follows conduct)
    (same : ((step now.place).run surroundings now.state now.world).1.value? = some (.inl next)) :
    Turn conduct step now ⟨next, ((step now.place).run surroundings now.state now.world).2.1,
      ((step now.place).run surroundings now.state now.world).2.2⟩ :=
  ends_of_run follows same

/-- What each turn keeps holds wherever the loop comes to stand. -/
theorem Turns.preserves (turns : Turns conduct step begun count now)
    (during : Standing σ ω β → Prop)
    (turn : ∀ now next, Turn conduct step now next → during now → during next)
    (holds : during begun) : during now := by
  induction turns with
  | none => exact holds
  | more _ taken induction => exact turn _ _ taken induction

/-- A loop takes no more turns than something can be brought down by. -/
theorem Turns.count_le (turns : Turns conduct step begun count now)
    (during : Standing σ ω β → Prop) (variant : β → Nat)
    (turn : ∀ now next, Turn conduct step now next → during now →
      during next ∧ variant next.place < variant now.place)
    (holds : during begun) : count + variant now.place ≤ variant begun.place := by
  suffices stands : during now ∧ count + variant now.place ≤ variant begun.place from stands.2
  induction turns with
  | none => exact ⟨holds, Nat.le_of_eq (Nat.zero_add _)⟩
  | more _ taken induction =>
      rcases turn _ _ taken induction.1 with ⟨holdsThen, lower⟩
      have counted := induction.2
      exact ⟨holdsThen, by omega⟩

/-- A sequence ends where its second routine does, or where its first does if that ends
without a value. -/
inductive SequenceEnds (conduct : Conduct σ ω) (first : Routine σ α) (second : α → Routine σ γ)
    (state : σ) (world : ω) : Outcome γ → σ → ω → Prop
  | second {value : α} {now after : σ} {late later : ω} {outcome : Outcome γ}
      (reached : first.Ends conduct state world (.value value) now late)
      (ended : (second value).Ends conduct now late outcome after later) :
      SequenceEnds conduct first second state world outcome after later
  | error {cause : SyncError} {after : σ} {later : ω}
      (ended : first.Ends conduct state world (.error cause) after later) :
      SequenceEnds conduct first second state world (.error cause) after later
  | halted {cause : Halt} {after : σ} {later : ω}
      (ended : first.Ends conduct state world (.halted cause) after later) :
      SequenceEnds conduct first second state world (.halted cause) after later

theorem ends_bind {first : Routine σ α} {second : α → Routine σ γ} {outcome : Outcome γ}
    (ended : (first >>= second).Ends conduct state world outcome after later) :
    SequenceEnds conduct first second state world outcome after later := by
  have firstEnds : first.Keeps conduct (fun _ _ => True)
      (fun outcome after later => first.Ends conduct state world outcome after later) state world :=
    keeps_of_ends fun _ _ _ ended => ended
  refine Keeps.ends (firstEnds.sequence ?_ ?_ ?_) ended
  · intro value now late reached
    exact keeps_of_ends fun outcome after later endedThen => .second reached endedThen
  · exact fun cause after later endedFirst => .error endedFirst
  · exact fun cause after later endedFirst => .halted endedFirst

theorem ends_done {value : α} {outcome : Outcome α}
    (ended : (Routine.done value).Ends conduct state world outcome after later) :
    outcome = .value value ∧ after = state ∧ later = world := by
  have keeps : (Routine.done value).Keeps conduct (fun _ _ => True) (fun outcome after later =>
      outcome = .value value ∧ after = state ∧ later = world) state world := ⟨rfl, rfl, rfl⟩
  exact keeps.ends ended

theorem ends_halted {cause : Halt} {outcome : Outcome α}
    (ended : (Routine.halted cause : Routine σ α).Ends conduct state world outcome after later) :
    outcome = .halted cause ∧ after = state ∧ later = world := by
  have keeps : (Routine.halted cause : Routine σ α).Keeps conduct (fun _ _ => True)
      (fun outcome after later => outcome = .halted cause ∧ after = state ∧ later = world)
      state world := ⟨rfl, rfl, rfl⟩
  exact keeps.ends ended

/-- A loop takes some turns, and then it ends with one more turn or is cut off. -/
theorem ends_iterate {turns : Nat} {outcome : Outcome α}
    (reached : Turns conduct step begun count now)
    (ended : (iterate step turns now.place).Ends conduct now.state now.world outcome after later) :
    ∃ total last, Turns conduct step begun total last ∧
      (Halts conduct step last after later outcome ∨
        total = count + turns ∧ outcome = .halted .exhausted ∧ after = last.state ∧
          later = last.world) := by
  induction turns generalizing count now with
  | zero => exact ⟨count, now, reached, .inr ⟨rfl, ends_halted ended⟩⟩
  | succ turns induction =>
      cases ends_bind ended with
      | @second result state _ world _ _ turn goesOn =>
          cases result with
          | inl place =>
              have reachedThen : Turns conduct step begun (count + 1) ⟨place, state, world⟩ :=
                reached.more turn
              rcases induction reachedThen goesOn with
                ⟨total, last, turns, halts | ⟨counted, cutOff⟩⟩
              · exact ⟨total, last, turns, .inl halts⟩
              · exact ⟨total, last, turns, .inr ⟨by omega, cutOff⟩⟩
          | inr value =>
              rcases ends_done goesOn with ⟨rfl, rfl, rfl⟩
              exact ⟨count, now, reached, .inl turn⟩
      | error turn => exact ⟨count, now, reached, .inl turn⟩
      | halted turn => exact ⟨count, now, reached, .inl turn⟩

end

/-! ## Work that does not break off -/

/-- Whatever is answered, the routine ends with a value or an error. -/
def Finishes : Routine σ α → Prop
  | .done _ => True
  | .fail _ => True
  | .halted _ => False
  | .read next => ∀ state, (next state).Finishes
  | .write _ next => next.Finishes
  | .ask _ next => ∀ answer, (next answer).Finishes

namespace Finishes

variable {conduct : Conduct σ ω} {state after : σ} {world later : ω}

theorem keeps_hasReturned {routine : Routine σ α} (finishes : routine.Finishes) :
    routine.Keeps conduct (fun _ _ => True) (fun outcome _ _ => outcome.HasReturned) state
      world := by
  induction routine generalizing state world with
  | done value => trivial
  | fail error => trivial
  | halted cause => exact finishes.elim
  | read next induction => exact induction state (finishes state)
  | write changed next induction => exact ⟨trivial, induction finishes⟩
  | ask query next induction => exact fun answer _ _ _ => induction answer (finishes answer)

theorem andThen {first : Routine σ α} {second : α → Routine σ β} (finishes : first.Finishes)
    (finishesThen : ∀ value, (second value).Finishes) : (first >>= second).Finishes := by
  rw [bind_eq]
  induction first with
  | done value => exact finishesThen value
  | fail error => trivial
  | halted cause => exact finishes
  | read next induction => exact fun state => induction state (finishes state)
  | write changed next induction => exact induction finishes
  | ask query next induction => exact fun answer => induction answer (finishes answer)

/-- Work that finishes, in front of work that may end with any error. -/
theorem andKeeps {first : Routine σ α} {second : α → Routine σ β}
    {ends : Outcome β → σ → ω → Prop} (finishes : first.Finishes)
    (continues : ∀ value after later, first.Ends conduct state world (.value value) after later →
      (second value).Keeps conduct (fun _ _ => True) ends after later)
    (fails : ∀ error after later, ends (.error error) after later) :
    (first >>= second).Keeps conduct (fun _ _ => True) ends state world := by
  have firstEnds : first.Keeps conduct (fun _ _ => True) (fun outcome after later =>
      outcome.HasReturned ∧ first.Ends conduct state world outcome after later) state world :=
    keeps_of_ends fun _ _ _ ended => ⟨finishes.keeps_hasReturned.ends ended, ended⟩
  exact firstEnds.sequence (fun value after later holds => continues value after later holds.2)
    (fun error after later _ => fails error after later) fun _ _ _ holds => holds.1.elim

theorem ofExcept (outcome : Except SyncError α) :
    (Routine.ofExcept outcome : Routine σ α).Finishes := by
  cases outcome <;> trivial

theorem zoom {part : τ → σ} {replace : σ → τ → τ} {routine : Routine σ α}
    (finishes : routine.Finishes) : (routine.zoom part replace).Finishes := by
  induction routine with
  | done value => trivial
  | fail error => trivial
  | halted cause => exact finishes
  | read next induction => exact fun whole => induction (part whole) (finishes (part whole))
  | write changed next induction => exact fun _ => induction finishes
  | ask query next induction => exact fun answer => induction answer (finishes answer)

theorem checkCanceled : (Routine.checkCanceled : Routine σ Unit).Finishes := by
  intro canceled
  cases canceled <;> trivial

theorem guarded_node (call : Node.Call) :
    ((Routine.node call).guarded : Routine σ call.Value).Finishes := by
  apply andThen checkCanceled
  intro _
  rw [Routine.node, Routine.cancelable]
  intro reply
  rcases reply with _ | error | value <;> trivial

theorem guarded_ask (call : Node.Call) :
    ((Routine.ask (.cancelableNode call) .done).guarded : Routine σ _).Finishes :=
  andThen checkCanceled fun _ _ => trivial

end Finishes

/-- A loop that may take more turns than it can is not cut off. It breaks off for a cause only
in a turn that does. -/
theorem halts_of_turns {conduct : Conduct σ ω} {step : β → Routine σ (β ⊕ α)}
    {turns bound : Nat} {place : β} {state after : σ} {world later : ω} {cause : Halt}
    (bounded : ∀ count now, Turns conduct step ⟨place, state, world⟩ count now → count ≤ bound)
    (enough : bound < turns)
    (ended : (iterate step turns place).Ends conduct state world (.halted cause) after later) :
    ∃ count now, Turns conduct step ⟨place, state, world⟩ count now ∧
      Halts conduct step now after later (.halted cause) := by
  have begun : Turns conduct step ⟨place, state, world⟩ 0 ⟨place, state, world⟩ := .none
  rcases ends_iterate begun ended with ⟨total, last, taken, halts | ⟨counted, -⟩⟩
  · exact ⟨total, last, taken, halts⟩
  · have := bounded total last taken
    omega

end Routine

end ReorgSync
