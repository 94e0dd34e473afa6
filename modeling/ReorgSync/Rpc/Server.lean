import ReorgSync.Rpc.Client

namespace ReorgSync.Rpc

/-! The node's side of JSON-RPC: what a node sends back for its own answer to a
call. -/

def encodeValue : (call : Node.Call) → call.Value → Json
  | .height, value => Quantity.toJson value
  | .blockByTag _, value => .optional Block.encode value
  | .blockByHash _ _, value => .optional Block.encode value
  | .logs _, value => .array (value.map Log.encode)
  | .chainId, value => Quantity.toJson value

/-- The code of an error object that refuses a log query as too large. -/
def tooMuchDataCode : Int := -32005

/-- What arrives for a request that a node answers in a given way. Failures of
the node's own connections lose the client's connection. -/
def respond (id : Nat) (call : Node.Call) : call.Reply → Except Failure Response
  | .ok value => .ok (.ofResult id (encodeValue call value))
  | .error (.tooMuchData message) => .ok (.ofError id { code := tooMuchDataCode, message })
  | .error (.rpc code message) => .ok (.ofError id { code, message })
  | .error (.transport message) => .error (.connection message)
  | .error (.decode message) => .error (.connection message)

/-- A node's answer as it comes out at the other end of the connection. -/
def relay (call : Node.Call) (answer : call.Reply) : call.Reply :=
  reply call (respond 1 call answer)

end ReorgSync.Rpc
