import ReorgSync.Codec.Values
import ReorgSync.Routine

namespace ReorgSync

/-! Sources of new heads. A source hands blocks to whoever handles them, until
it is canceled. A handler that fails for a reason that a later head may clear
keeps the source going; any other failure ends it. -/

/-- What a source does after a block was handled. -/
inductive Handled where
  | accepted
  /-- The block was refused, but later ones may be accepted. -/
  | refused
deriving DecidableEq, Repr

namespace Heads

variable {σ : Type}

/-- Hand a block over. A failure that is not transient ends the source. -/
def deliver (handler : Block → Routine σ Unit) (block : Block) : Routine σ Handled := do
  match ← (handler block).attempt with
  | .ok () => return .accepted
  | .error error => if error.isTransient then return .refused else .fail error

/-! ## Polling -/

/-- Regular times. Each tick is one period behind the one before it; only a
tick that comes too late moves those that follow. -/
structure Ticker where
  period : Nat
  next : Nat
deriving DecidableEq, Repr

namespace Ticker

/-- How late a tick may come without moving the following ones. -/
def tolerance : Nat := 5

def start (period now : Nat) : Ticker where
  period
  next := now

def rearm (ticker : Ticker) (now : Nat) : Ticker :=
  { ticker with
    next := (if ticker.next + tolerance < now then now else ticker.next) + ticker.period }

end Ticker

/-- Where a polling source stands: its next tick, and the hash of the last block
it delivered, unless that block was refused. -/
structure Polling where
  ticker : Ticker
  lastHash : Option String := none
deriving DecidableEq, Repr

/-- What to do with the node's latest block: a block that was delivered before
is not delivered again. -/
def Polling.offer (handler : Block → Routine σ Unit) (lastHash : Option String) (block : Block) :
    Routine σ (Option String) := do
  if lastHash = some block.hash then return lastHash
  else
    match ← deliver handler block with
    | .accepted => return some block.hash
    | .refused => return none

/-- One poll. Failed polls, and polls without a block, are passed over. -/
def Polling.step (handler : Block → Routine σ Unit) (polling : Polling) :
    Routine σ (Polling ⊕ Unit) := do
  let before ← Routine.query .now
  if ← Routine.query (.wait (polling.ticker.next - before)) then return .inr ()
  else
    let now ← Routine.query .now
    let ticker := polling.ticker.rearm now
    match ← Routine.query (.cancelableNode (.blockByTag .latest)) with
    | none => return .inr ()
    | some (.ok (some block)) =>
        let lastHash ← Polling.offer handler polling.lastHash block
        return .inl { ticker, lastHash }
    | some _ => return .inl { polling with ticker }

/-- Poll the latest block once per period, for at most so many turns. -/
def poll (handler : Block → Routine σ Unit) (period turns : Nat) : Routine σ Unit := do
  let now ← Routine.query .now
  Routine.iterate (Polling.step handler) turns { ticker := .start period now }

/-! ## Notifications -/

/-- The topic under which nodes announce new heads. -/
def defaultTopic : String := "newHeads"

/-- The end of a subscription, as the source reports it. -/
def subscriptionClosed : SyncError :=
  .node (.transport "head subscription closed")

/-- One notification. What does not describe a block is passed over. -/
def notificationStep (handler : Block → Routine σ Unit) : Routine σ (Unit ⊕ Unit) := do
  match ← Routine.query .arrival with
  | .canceled => return .inr ()
  | .closed => .fail subscriptionClosed
  | .message payload =>
      match Block.decoder.ofJson payload with
      | .error _ => return .inl ()
      | .ok block =>
          let _ ← deliver handler block
          return .inl ()

/-- Subscribe to a topic and deliver the blocks that are announced there, for at
most so many turns. -/
def listen (handler : Block → Routine σ Unit) (topic : String) (turns : Nat) :
    Routine σ Unit := do
  match ← Routine.query (.subscribe topic) with
  | none => return ()
  | some (.error error) => .fail (.node error)
  | some (.ok ()) => Routine.iterate (fun () => notificationStep handler) turns ()

end Heads

end ReorgSync
