import ReorgSync.Rpc.Message

namespace ReorgSync.Rpc

/-! Asking a node over JSON-RPC: how a call becomes a request, and what a
response says about the call. -/

open Codec

/-! ## Requests -/

/-- A list of alternatives as the node expects it: left out or `null` if empty,
a single value on its own, an array otherwise. -/
def alternatives : List String → Json
  | [] => .null
  | [single] => .string single
  | several => .strings several

/-- The text that names a block by its place on the chain. -/
def tagText : BlockTag → String
  | .latest => "latest"
  | .number value => Quantity.encode value

/-- The filter object of a log query. An address or a list of topics that
restricts nothing is left out; a topic position that restricts nothing is
`null`. -/
def logFilter (query : LogQuery) : Json :=
  let address :=
    if query.filter.addresses.isEmpty then []
    else [("address", alternatives query.filter.addresses)]
  let topics :=
    if query.filter.topics.isEmpty then []
    else [("topics", .array (query.filter.topics.map alternatives))]
  let blocks :=
    match query.selector with
    | .range first last =>
        [("fromBlock", Json.string (tagText (.number first))),
         ("toBlock", Json.string (tagText (.number last)))]
    | .blockHash hash => [("blockHash", Json.string hash)]
  .object (address ++ topics ++ blocks)

def method : Node.Call → String
  | .height => "eth_blockNumber"
  | .blockByTag _ => "eth_getBlockByNumber"
  | .blockByHash _ _ => "eth_getBlockByHash"
  | .logs _ => "eth_getLogs"
  | .chainId => "eth_chainId"

def params : Node.Call → List Json
  | .height => []
  | .blockByTag tag => [.string (tagText tag), .bool false]
  | .blockByHash hash full => [.string hash, .bool full]
  | .logs query => [logFilter query]
  | .chainId => []

def request (id : Nat) (call : Node.Call) : Request where
  version := "2.0"
  method := method call
  params := params call
  id

/-! ## Refusals

Nodes refuse log queries whose result would be too large with a code of their
own, or only in words. -/

def tooMuchDataCodes : List Int := [-32005]

/-- Parts of such messages, in lower case. -/
def tooMuchDataPhrases : List String :=
  ["query returned more than",
   "response size exceeded",
   "response size should not greater than",
   "too many results",
   "block range is too large",
   "block range too large",
   "exceed maximum block range",
   "exceeds the range limit",
   "range is too large"]

/-- Whether a phrase stands somewhere in a text. -/
def occursIn (phrase : List Char) : List Char → Bool
  | [] => phrase.isEmpty
  | text@(_ :: rest) => phrase.isPrefixOf text || occursIn phrase rest

/-- Whether a text contains a phrase, up to the case of ASCII letters in the
text. -/
def mentions (phrase text : String) : Bool :=
  occursIn phrase.toList (Text.foldCase text).toList

/-- Whether an error object says that a result would be too large. Words that
say so may stand in the message or in a text beside it. -/
def ErrorObject.isTooMuchData (error : ErrorObject) : Bool :=
  let detail :=
    match error.data with
    | some (.string text) => text
    | _ => ""
  tooMuchDataCodes.contains error.code ||
    tooMuchDataPhrases.any fun phrase => mentions phrase error.message || mentions phrase detail

/-! ## Replies -/

def ErrorObject.toNodeError (error : ErrorObject) : NodeError :=
  if error.isTooMuchData then .tooMuchData error.message
  else .rpc error.code error.message

def Failure.toNodeError : Failure → NodeError
  | .unreadable detail => .decode detail
  | failure => .transport failure.describe

/-- The result as a quantity. The node has to write it as a text. -/
def readQuantity (result : Json) : Except Fault Nat := do
  let text ← Decoder.string.ofJson result
  Decoder.quantity.ofJson (.string text)

def readResult (result : Json) : (call : Node.Call) → Except Fault call.Value
  | .height => readQuantity result
  | .blockByTag _ => Block.decoder.optional.ofJson result
  | .blockByHash _ _ => Block.decoder.optional.ofJson result
  | .logs _ => (Decoder.list Log.decoder).ofJson result
  | .chainId => readQuantity result

/-- The reply to a call in what came back for its request. -/
def reply (call : Node.Call) : Except Failure Response → call.Reply
  | .error failure => .error failure.toNodeError
  | .ok response =>
      match response.outcome with
      | .error error => .error error.toNodeError
      | .ok result =>
          match readResult result call with
          | .ok value => .ok value
          | .error fault => .error (.decode (method call ++ ": " ++ fault.message))

end ReorgSync.Rpc
