import ReorgSync.Codec.Values

namespace ReorgSync.Rpc

/-! JSON-RPC 2.0 messages. -/

open Codec

structure Request where
  version : String
  method : String
  params : List Json
  id : Nat

namespace Request

def encode (request : Request) : Json :=
  .object [
    ("jsonrpc", .string request.version),
    ("method", .string request.method),
    ("params", .array request.params),
    ("id", .natural request.id)]

def decoder : Decoder Request :=
  Fields.of Request.mk
    |>.and (.required "jsonrpc" .string)
    |>.and (.required "method" .string)
    |>.and (.required "params" (.list .json))
    |>.and (.required "id" (.natural 64))
    |>.decoder

end Request

structure ErrorObject where
  code : Int
  message : String
  data : Option Json := none

namespace ErrorObject

def encode (error : ErrorObject) : Json :=
  .object <|
    [("code", .integer error.code), ("message", .string error.message)] ++
      (error.data.map fun data => ("data", data)).toList

def decoder : Decoder ErrorObject :=
  Fields.of ErrorObject.mk
    |>.and (.required "code" (.signed 64))
    |>.and (.required "message" .string)
    |>.and (.withDefault "data" none (Decoder.optional .json))
    |>.decoder

def describe (error : ErrorObject) : String :=
  s!"JSON-RPC error {error.code}: {error.message}"

end ErrorObject

/-- A response carries a result or an error object; the id is whatever the
node made of the request's. -/
structure Response where
  version : String
  id : Json
  result : Option Json := none
  error : Option ErrorObject := none

namespace Response

def encode (response : Response) : Json :=
  .object <|
    [("jsonrpc", .string response.version), ("id", response.id)] ++
      (response.result.map fun result => ("result", result)).toList ++
      (response.error.map fun error => ("error", error.encode)).toList

def decoder : Decoder Response :=
  Fields.of Response.mk
    |>.and (.required "jsonrpc" .string)
    |>.and (.required "id" .json)
    |>.and (.withDefault "result" none (Decoder.optional .json))
    |>.and (.withDefault "error" none ErrorObject.decoder.optional)
    |>.decoder

def ofResult (id : Nat) (result : Json) : Response where
  version := "2.0"
  id := .natural id
  result := some result

def ofError (id : Nat) (error : ErrorObject) : Response where
  version := "2.0"
  id := .natural id
  error := some error

/-- What a response says: its error object if it has one, and otherwise its
result, where a missing result is `null`. -/
def outcome (response : Response) : Except ErrorObject Json :=
  match response.error with
  | some error => .error error
  | none => .ok (response.result.getD .null)

end Response

inductive Failure where
  | connection (message : String)
  /-- There was no answer within so many milliseconds. -/
  | timeout (time : Nat)
  | unreadable (message : String)

def Failure.describe : Failure → String
  | .connection detail => s!"connection error: {detail}"
  | .timeout time => s!"request timed out after {time}ms"
  | .unreadable detail => s!"deserialization error: {detail}"

end ReorgSync.Rpc
