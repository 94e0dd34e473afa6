namespace ReorgSync

/-! What can go wrong, as causes. Each kind of error has one wording. -/

/-- Stands in a message where an outside component (a JSON library, a database,
a network) would put words of its own, which are not part of this model. -/
def unspecified : String := "<text>"

inductive NodeError where
  /-- The node refused a log query because its result would be too large. -/
  | tooMuchData (message : String)
  /-- The node answered with an error of its own. -/
  | rpc (code : Int) (message : String)
  | transport (message : String)
  | decode (message : String)
deriving DecidableEq, Repr

namespace NodeError

def message : NodeError → String
  | .tooMuchData detail => s!"too much data requested: {detail}"
  | .rpc code detail => s!"RPC error {code}: {detail}"
  | .transport detail => s!"transport error: {detail}"
  | .decode detail => s!"decode error: {detail}"

/-- A smaller query may succeed. -/
def isTooMuchData : NodeError → Bool
  | .tooMuchData _ => true
  | _ => false

/-- The same query may succeed when it is repeated. -/
def isRetryable : NodeError → Bool
  | .transport _ => true
  | .rpc _ _ => true
  | _ => false

end NodeError

/-- Why following the chain or synchronising a store stopped. -/
inductive SyncError where
  | node (error : NodeError)
  | storage (message : String)
  | chainMismatch (recorded actual : Nat)
  | genesisMismatch (recorded actual : String)
  | storeAheadOfHead (stored head : Nat)
  | reorgTooDeep (height backlog : Nat)
  | nonContiguous (expected got : Nat)
  | blockNotFound (name : String)
  | fellBehind
  | canceled
  | other (message : String)
deriving DecidableEq, Repr

namespace SyncError

def message : SyncError → String
  | .node error => s!"provider error: {error.message}"
  | .storage detail => s!"storage error: {detail}"
  | .chainMismatch recorded actual =>
      "store belongs to a different chain: " ++
        s!"recorded chain id {recorded}, provider reports {actual}"
  | .genesisMismatch recorded actual =>
      "store belongs to a different chain: " ++
        s!"recorded genesis {recorded}, provider reports {actual}"
  | .storeAheadOfHead stored head =>
      s!"store is ahead of the chain: stored block {stored}, head {head}"
  | .reorgTooDeep height backlog =>
      s!"reorg exceeds configured backlog of {backlog} blocks (detected at block {height})"
  | .nonContiguous expected got =>
      s!"bad block sequence: expected block {expected}, got {got}"
  | .blockNotFound name => s!"block {name} not found"
  | .fellBehind => "subscriber fell too far behind the stream"
  | .canceled => "canceled"
  | .other detail => detail

/-- The store cannot follow this chain; repeating the synchronisation does not
help. -/
def isFatal : SyncError → Bool
  | .chainMismatch _ _ => true
  | .genesisMismatch _ _ => true
  | .storeAheadOfHead _ _ => true
  | .reorgTooDeep _ _ => true
  | .nonContiguous _ _ => true
  | _ => false

/-- A later head may clear the failure: the node failed, or does not serve a
block yet. -/
def isTransient : SyncError → Bool
  | .node _ => true
  | .blockNotFound _ => true
  | _ => false

def isCanceled : SyncError → Bool
  | .canceled => true
  | _ => false

end SyncError

end ReorgSync
