import ReorgSync.Error
import ReorgSync.Filter

namespace ReorgSync

/-! What can be asked of a node. A node answers each call on its own; nothing
is assumed about how two answers fit together. -/

inductive BlockTag where
  | latest
  | number (value : Nat)
deriving DecidableEq, Repr

inductive LogSelector where
  /-- All heights from the first to the second, both included. -/
  | range (first last : Nat)
  | blockHash (hash : String)
deriving DecidableEq, Repr

/-- A log query: what to select, and in which blocks. -/
structure LogQuery where
  filter : Filter
  selector : LogSelector
deriving DecidableEq, Repr

namespace Node

inductive Call where
  | height
  | blockByTag (tag : BlockTag)
  /-- A block by its hash, canonical or not, with or without transactions. -/
  | blockByHash (hash : String) (full : Bool)
  | logs (query : LogQuery)
  | chainId
deriving DecidableEq, Repr

abbrev Call.Value : Call → Type
  | .height => Nat
  | .blockByTag _ => Option Block
  | .blockByHash _ _ => Option Block
  | .logs _ => List Log
  | .chainId => Nat

/-- An answer: the value, or why there is none. -/
abbrev Call.Reply (call : Call) : Type :=
  Except NodeError call.Value

end Node

end ReorgSync
