import ReorgSync.Sync.Position

namespace ReorgSync

/-! Far behind the head, logs are fetched by ranges of heights. Blocks there are
taken to be settled, which is checked again before each further range. The
ranges adapt to what the node is willing to answer. -/

structure Backfill where
  /-- The first height that is not stored yet. -/
  origin : Nat
  last : Option Block
  /-- How far behind its first height the next range may end. -/
  batch : Nat
  /-- Whether `last` was canonical after it was stored. -/
  isVerified : Bool := true
deriving DecidableEq, Repr

namespace Backfill

def heightLimit : Nat := Word.size 64

def shrink (state : Backfill) : Backfill :=
  { state with batch := state.batch / 2 }

/-- What is added to the batch after a success. -/
def growth (config : Config) : Nat :=
  max (config.batchSize / 10) 1

/-- Whether so few blocks are left that they are fetched one by one. -/
def checkNear (state : Backfill) (head backlog : Nat) : Routine σ Bool :=
  if head < state.origin then return true
  else do
    let ahead ← Routine.difference head state.origin
    let left ← Routine.sum ahead 1
    return decide (left ≤ backlog)

/-- The last height of a range: behind its first one by the batch, but not
within the backlog of the head. The sum stops at the largest word. -/
def checkEnd (state : Backfill) (head backlog : Nat) : Routine σ Nat := do
  let settled ← Routine.difference head backlog
  return min (min (state.origin + state.batch) (heightLimit - 1)) settled

/-- After a success, go on behind the range and try a little farther, up to the
configured size. -/
def checkAdvance (state : Backfill) (config : Config) (block : Block) (rangeEnd : Nat) :
    Routine σ Backfill := do
  let origin ← Routine.sum rangeEnd 1
  let batch ← Routine.sum state.batch (growth config)
  return { origin, last := some block, batch := min batch config.batchSize, isVerified := false }

end Backfill

namespace Session

variable {ε : Type} [EntryStore ε]

/-- Whether the block that a backfill ended at is still canonical. -/
def isSettled (state : Backfill) : Routine (Session ε) Bool :=
  match state.isVerified, state.last with
  | false, some stored => do
      match ← call (.blockByTag (.number stored.number)) with
      | some canonical => return canonical.hash == stored.hash
      | none => return false
  | _, _ => return true

def backfillRange (config : Config) (state : Backfill) (rangeEnd : Nat) :
    Routine (Session ε) Backfill := do
  let query : LogQuery := ⟨config.filter, .range state.origin rangeEnd⟩
  match ← (Routine.ask (.cancelableNode (.logs query)) .done).guarded with
  | none => .fail .canceled
  | some (.ok logs) =>
      let block ← blockAt rangeEnd
      apply (.append logs block)
      state.checkAdvance config block rangeEnd
  | some (.error error) =>
      if error.isTooMuchData ∧ state.batch ≠ 0 then return state.shrink
      else .fail (.node error)

/-- One turn of a backfill. It ends with the state it reached once the head is
near, or with `none` if a block that it stored was displaced. -/
def backfillStep (config : Config) (state : Backfill) :
    Routine (Session ε) (Backfill ⊕ Option Backfill) := do
  Routine.checkCanceled
  if ← isSettled state then
    let state := { state with isVerified := true }
    let backlog ← backlog
    let head ← call .height
    if ← state.checkNear head backlog then return .inr (some state)
    else
      enter .backfilling
      let rangeEnd ← state.checkEnd head backlog
      return .inl (← backfillRange config state rangeEnd)
  else return .inr none

/-- Store ranges until the head is near, for at most so many turns. -/
def backfill (config : Config) (turns origin : Nat) (last : Option Block) :
    Routine (Session ε) (Option Backfill) :=
  Routine.iterate (backfillStep config) turns { origin, last, batch := config.batchSize }

end Session

end ReorgSync
