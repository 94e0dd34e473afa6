import ReorgSync.Query
import ReorgSync.Word

namespace ReorgSync

/-! A routine is a piece of work as data: the tree of everything it may do. It
reads and writes a shared state, asks questions and goes on with their answers,
and ends with a value or an error. Because a routine is data, it can be stopped
at any question and taken up again later, and statements about it can range
over all answers. -/

/-- Why a routine breaks off. Unlike an error this cannot be looked at, and nothing is done
after it. -/
inductive Halt where
  /-- A loop was cut off by its bound on the number of turns. -/
  | exhausted
  /-- The result of an operation on words is no word. -/
  | overflow (operation : Word.Operation)
deriving DecidableEq, Repr

inductive Routine (σ α : Type) where
  | done (value : α)
  | fail (error : SyncError)
  | halted (cause : Halt)
  | read (next : σ → Routine σ α)
  | write (state : σ) (next : Routine σ α)
  | ask (query : Query) (next : query.Answer → Routine σ α)

namespace Routine

variable {σ τ α β γ : Type}

def bind : Routine σ α → (α → Routine σ β) → Routine σ β
  | .done value, continuation => continuation value
  | .fail error, _ => .fail error
  | .halted cause, _ => .halted cause
  | .read next, continuation => .read fun state => (next state).bind continuation
  | .write state next, continuation => .write state (next.bind continuation)
  | .ask query next, continuation => .ask query fun answer => (next answer).bind continuation

instance : Monad (Routine σ) where
  pure := .done
  bind := bind

theorem pure_eq_done (value : α) : (pure value : Routine σ α) = .done value := rfl

theorem bind_eq (routine : Routine σ α) (continuation : α → Routine σ β) :
    routine >>= continuation = routine.bind continuation := rfl

theorem bind_done (routine : Routine σ α) : routine.bind .done = routine := by
  induction routine with
  | done value => rfl
  | fail error => rfl
  | halted cause => rfl
  | read next inner => exact congrArg Routine.read (funext inner)
  | write state next inner => exact congrArg (Routine.write state) inner
  | ask query next inner => exact congrArg (Routine.ask query) (funext inner)

/-- It does not matter how a sequence of routines is grouped. -/
theorem bind_assoc (routine : Routine σ α) (first : α → Routine σ β) (second : β → Routine σ γ) :
    (routine.bind first).bind second = routine.bind fun value => (first value).bind second := by
  induction routine with
  | done value => rfl
  | fail error => rfl
  | halted cause => rfl
  | read next inner => exact congrArg Routine.read (funext inner)
  | write state next inner => exact congrArg (Routine.write state) inner
  | ask query next inner => exact congrArg (Routine.ask query) (funext inner)

instance : LawfulMonad (Routine σ) :=
  LawfulMonad.mk' (Routine σ) bind_done (fun _ _ => rfl) bind_assoc

/-! ### Steps -/

def query (question : Query) : Routine σ question.Answer :=
  .ask question .done

def get (part : σ → α) : Routine σ α :=
  .read fun state => .done (part state)

def modify (change : σ → σ) : Routine σ Unit :=
  .read fun state => .write (change state) (.done ())

/-- End with the value or the error of a computation. -/
def ofExcept : Except SyncError α → Routine σ α
  | .ok value => .done value
  | .error error => .fail error

def ofReply : Except NodeError α → Routine σ α
  | .ok value => .done value
  | .error error => .fail (.node error)

def node (call : Node.Call) : Routine σ call.Value :=
  .ask (.node call) ofReply

def pause (time : Nat) : Routine σ Unit :=
  query (.pause time)

/-- Let time pass; cancellation is an error. -/
def sleep (time : Nat) : Routine σ Unit :=
  .ask (.wait time) fun canceled => if canceled then .fail .canceled else .done ()

/-- Go on only if the work was not canceled. -/
def checkCanceled : Routine σ Unit :=
  .ask .isCanceled fun canceled => if canceled then .fail .canceled else .done ()

/-- The sum of two words. -/
def sum (left right : Nat) : Routine σ Nat :=
  if left + right < Word.size 64 then .done (left + right)
  else .halted (.overflow .addition)

/-- The difference of two words. -/
def difference (left right : Nat) : Routine σ Nat :=
  if right ≤ left then .done (left - right)
  else .halted (.overflow .subtraction)

/-! ### Combinations -/

/-- The same routine, given up as soon as it waits while the work is
canceled. -/
def cancelable : Routine σ α → Routine σ α
  | .done value => .done value
  | .fail error => .fail error
  | .halted cause => .halted cause
  | .read next => .read fun state => (next state).cancelable
  | .write state next => .write state next.cancelable
  | .ask (.node call) next =>
      .ask (.cancelableNode call) fun reply =>
        match reply with
        | some reply => (next reply).cancelable
        | none => .fail .canceled
  | .ask (.pause time) next =>
      .ask (.wait time) fun canceled =>
        if canceled then .fail .canceled else (next ()).cancelable
  | .ask question next => .ask question fun answer => (next answer).cancelable

/-- Run a routine unless the work is canceled, and give it up if it is canceled
meanwhile. -/
def guarded (routine : Routine σ α) : Routine σ α := do
  checkCanceled
  routine.cancelable

/-- The outcome of a routine as a value, so that its error can be looked at. -/
def attempt : Routine σ α → Routine σ (Except SyncError α)
  | .done value => .done (.ok value)
  | .fail error => .done (.error error)
  | .halted cause => .halted cause
  | .read next => .read fun state => (next state).attempt
  | .write state next => .write state next.attempt
  | .ask question next => .ask question fun answer => (next answer).attempt

/-- Run a routine while holding the follower, and let go of it however the
routine ends. -/
def releasing (routine : Routine σ α) : Routine σ α := do
  let outcome ← routine.attempt
  query .release
  ofExcept outcome

/-- Run a routine while no one else uses the follower. -/
def exclusively (routine : Routine σ α) : Routine σ α := do
  query .acquire
  routine.releasing

/-- Run a routine while no one else uses the follower, unless the work is
canceled, and give it up if it is canceled meanwhile. -/
def guardedExclusively (routine : Routine σ α) : Routine σ α := do
  checkCanceled
  if ← query .acquireCancelable then .fail .canceled
  else routine.cancelable.releasing

/-- The same routine on a state that holds its own as a part. -/
def zoom (part : τ → σ) (replace : σ → τ → τ) : Routine σ α → Routine τ α
  | .done value => .done value
  | .fail error => .fail error
  | .halted cause => .halted cause
  | .read next => .read fun whole => (next (part whole)).zoom part replace
  | .write state next =>
      .read fun whole => .write (replace state whole) (next.zoom part replace)
  | .ask question next => .ask question fun answer => (next answer).zoom part replace

/-- Repeat a step until it ends with a value, for at most so many turns. -/
def iterate (step : β → Routine σ (β ⊕ α)) : (turns : Nat) → β → Routine σ α
  | 0, _ => .halted .exhausted
  | turns + 1, state => do
      match ← step state with
      | .inl state => iterate step turns state
      | .inr value => .done value

end Routine

/-! ## Running routines -/

inductive Outcome (α : Type) where
  | value (value : α)
  | error (error : SyncError)
  | halted (cause : Halt)
deriving DecidableEq

/-- A value or an error, which can be looked at. -/
def Outcome.HasReturned : Outcome α → Prop
  | .value _ => True
  | .error _ => True
  | .halted _ => False

instance : (outcome : Outcome α) → Decidable outcome.HasReturned
  | .value _ => isTrue trivial
  | .error _ => isTrue trivial
  | .halted _ => isFalse id

/-- What a routine runs in: something that answers its questions. While an
answer is awaited, others may change the shared state. -/
structure Surroundings (σ ω : Type) where
  answer : (query : Query) → σ → ω → query.Answer × σ × ω

/-- Run a routine to its end, and answer how it ended with the state and the
surroundings at that time. -/
def Routine.run (surroundings : Surroundings σ ω) :
    Routine σ α → σ → ω → Outcome α × σ × ω
  | .done value, state, world => (.value value, state, world)
  | .fail error, state, world => (.error error, state, world)
  | .halted cause, state, world => (.halted cause, state, world)
  | .read next, state, world => (next state).run surroundings state world
  | .write state next, _, world => next.run surroundings state world
  | .ask query next, state, world =>
      let (answer, state, world) := surroundings.answer query state world
      (next answer).run surroundings state world

/-- What follows the end of a first routine. -/
def Outcome.andThen (continuation : α → σ → ω → Outcome β × σ × ω) :
    Outcome α × σ × ω → Outcome β × σ × ω
  | (.value result, state, world) => continuation result state world
  | (.error cause, state, world) => (.error cause, state, world)
  | (.halted cause, state, world) => (.halted cause, state, world)

/-- A sequence of routines runs as its first routine does, and then as its
second does where the first ended. -/
theorem Routine.run_bind (surroundings : Surroundings σ ω) (routine : Routine σ α)
    (continuation : α → Routine σ β) (state : σ) (world : ω) :
    (routine.bind continuation).run surroundings state world =
      Outcome.andThen (fun value => (continuation value).run surroundings)
        (routine.run surroundings state world) := by
  induction routine generalizing state world with
  | done value => rfl
  | fail error => rfl
  | halted cause => rfl
  | read next inner => exact inner state state world
  | write changed next inner => exact inner changed world
  | ask query next inner => exact inner _ _ _

end ReorgSync
