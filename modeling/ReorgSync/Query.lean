import ReorgSync.Json
import ReorgSync.Node

namespace ReorgSync

/-! Whatever follows a chain talks to a node, waits, and may be canceled. Each of
these is a question to the surroundings, and each question has a type of
answers. Nothing is assumed about the answers: they come from any node, under
any schedule. -/

inductive Arrival where
  | canceled
  | closed
  | message (payload : Json)

inductive Query where
  /-- A call to the node that is waited for in any case. -/
  | node (call : Node.Call)
  /-- A call to the node that is given up on cancellation. -/
  | cancelableNode (call : Node.Call)
  /-- The first block that touches any of the addresses, given up on
  cancellation. -/
  | hint (addresses : List String)
  | isCanceled
  | pause (time : Nat)
  /-- Let time pass, but answer at once on cancellation. -/
  | wait (time : Nat)
  /-- Wait until something is published, or for cancellation. -/
  | idle
  | now
  /-- Subscribe to notifications, given up on cancellation. -/
  | subscribe (topic : String)
  | arrival
  /-- Wait until no one else holds the follower, and take hold of it. -/
  | acquire
  /-- The same, given up on cancellation. -/
  | acquireCancelable
  /-- Let go of the follower. -/
  | release

/-- Where a question is given up on cancellation, `none` is that answer; where
waiting is, `true` is. -/
abbrev Query.Answer : Query → Type
  | .node call => call.Reply
  | .cancelableNode call => Option call.Reply
  | .hint _ => Option (Except NodeError (Option Nat))
  | .isCanceled => Bool
  | .pause _ => Unit
  | .wait _ => Bool
  | .idle => Bool
  | .now => Nat
  | .subscribe _ => Option (Except NodeError Unit)
  | .arrival => Arrival
  | .acquire => Unit
  | .acquireCancelable => Bool
  | .release => Unit

end ReorgSync
