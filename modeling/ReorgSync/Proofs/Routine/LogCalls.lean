import ReorgSync.Proofs.Routine.Quietly

namespace ReorgSync

/-! Work that does not depend on the logs of single blocks: none of its questions is about
them, whatever is answered to the others. -/

/-- The blocks whose logs a question asks for, by their hashes. -/
def Query.blockLogs : Query → List String
  | .node (.logs ⟨_, .blockHash hash⟩) => [hash]
  | .cancelableNode (.logs ⟨_, .blockHash hash⟩) => [hash]
  | _ => []

/-- It makes no difference whether a call would be given up on cancellation. -/
theorem Query.blockLogs_cancelableNode (call : Node.Call) :
    (Query.cancelableNode call).blockLogs = (Query.node call).blockLogs := by
  rcases call with _ | _ | _ | ⟨_, _ | _⟩ | _ <;> rfl

namespace Routine

/-- The logs of no single block are asked for. -/
def SparesLogs : Routine σ α → Prop
  | .done _ => True
  | .fail _ => True
  | .halted _ => True
  | .read next => ∀ state, (next state).SparesLogs
  | .write _ next => next.SparesLogs
  | .ask query next => query.blockLogs = [] ∧ ∀ answer, (next answer).SparesLogs

namespace SparesLogs

theorem andThen {first : Routine σ α} {second : α → Routine σ β} (spares : first.SparesLogs)
    (sparesThen : ∀ value, (second value).SparesLogs) : (first >>= second).SparesLogs := by
  rw [bind_eq]
  induction first with
  | done value => exact sparesThen value
  | fail error => trivial
  | halted cause => trivial
  | read next induction => exact fun state => induction state (spares state)
  | write changed next induction => exact induction spares
  | ask query next induction =>
      exact ⟨spares.1, fun answer => induction answer (spares.2 answer)⟩

theorem get (part : σ → α) : (Routine.get part).SparesLogs :=
  fun _ => trivial

theorem modify (change : σ → σ) : (Routine.modify change).SparesLogs :=
  fun _ => trivial

theorem ofExcept (outcome : Except SyncError α) :
    (Routine.ofExcept outcome : Routine σ α).SparesLogs := by
  cases outcome <;> trivial

theorem node {call : Node.Call} (other : (Query.node call).blockLogs = []) :
    (Routine.node call : Routine σ call.Value).SparesLogs := by
  refine ⟨other, fun reply => ?_⟩
  cases reply <;> trivial

theorem checkCanceled : (Routine.checkCanceled : Routine σ Unit).SparesLogs := by
  refine ⟨rfl, fun canceled => ?_⟩
  cases canceled <;> trivial

theorem sleep (time : Nat) : (Routine.sleep time : Routine σ Unit).SparesLogs := by
  refine ⟨rfl, fun canceled => ?_⟩
  cases canceled <;> trivial

theorem attempt {routine : Routine σ α} (spares : routine.SparesLogs) :
    routine.attempt.SparesLogs := by
  induction routine with
  | done value => trivial
  | fail error => trivial
  | halted cause => trivial
  | read next induction => exact fun state => induction state (spares state)
  | write changed next induction => exact induction spares
  | ask query next induction =>
      exact ⟨spares.1, fun answer => induction answer (spares.2 answer)⟩

theorem cancelable {routine : Routine σ α} (spares : routine.SparesLogs) :
    routine.cancelable.SparesLogs := by
  induction routine with
  | done value => trivial
  | fail error => trivial
  | halted cause => trivial
  | read next induction => exact fun state => induction state (spares state)
  | write changed next induction => exact induction spares
  | ask query next induction =>
      cases query with
      | node call =>
          rw [Routine.cancelable]
          refine ⟨(Query.blockLogs_cancelableNode call).trans spares.1, fun reply => ?_⟩
          cases reply with
          | none => trivial
          | some reply => exact induction reply (spares.2 reply)
      | pause time =>
          rw [Routine.cancelable]
          refine ⟨rfl, fun canceled => ?_⟩
          cases canceled with
          | true => trivial
          | false => exact induction () (spares.2 ())
      | _ =>
          simp only [Routine.cancelable]
          exact ⟨spares.1, fun answer => induction answer (spares.2 answer)⟩

theorem zoom {part : τ → σ} {replace : σ → τ → τ} {routine : Routine σ α}
    (spares : routine.SparesLogs) : (routine.zoom part replace).SparesLogs := by
  induction routine with
  | done value => trivial
  | fail error => trivial
  | halted cause => trivial
  | read next induction => exact fun whole => induction (part whole) (spares (part whole))
  | write changed next induction => exact fun _ => induction spares
  | ask query next induction =>
      exact ⟨spares.1, fun answer => induction answer (spares.2 answer)⟩

theorem guarded {routine : Routine σ α} (spares : routine.SparesLogs) :
    routine.guarded.SparesLogs :=
  checkCanceled.andThen fun _ => spares.cancelable

theorem releasing {routine : Routine σ α} (spares : routine.SparesLogs) :
    routine.releasing.SparesLogs :=
  spares.attempt.andThen fun outcome => ⟨rfl, fun _ => ofExcept outcome⟩

theorem exclusively {routine : Routine σ α} (spares : routine.SparesLogs) :
    routine.exclusively.SparesLogs :=
  ⟨rfl, fun _ => spares.releasing⟩

theorem guardedExclusively {routine : Routine σ α} (spares : routine.SparesLogs) :
    routine.guardedExclusively.SparesLogs := by
  refine checkCanceled.andThen fun _ => ⟨rfl, fun canceled => ?_⟩
  cases canceled with
  | true => trivial
  | false => exact spares.cancelable.releasing

theorem iterate {step : β → Routine σ (β ⊕ α)} (turn : ∀ place, (step place).SparesLogs)
    (turns : Nat) (place : β) : (Routine.iterate step turns place).SparesLogs := by
  induction turns generalizing place with
  | zero => trivial
  | succ turns induction =>
      refine (turn place).andThen fun result => ?_
      cases result with
      | inl next => exact induction next
      | inr value => trivial

end SparesLogs

end Routine

end ReorgSync
