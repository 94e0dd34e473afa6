import ReorgSync.Codec.Values
import ReorgSync.Json.Print

namespace ReorgSync

/-! Block explorers know at which height a contract first appears, so an empty
store need not be filled from genesis. An explorer is asked over HTTP for the
oldest transaction of each address. -/

/-- An explorer's address on the network, and the key it asks for. -/
structure Explorer where
  baseUrl : String
  apiKey : Option String := none
deriving DecidableEq, Repr

namespace Explorer

def mainNetwork (apiKey : String) : Explorer where
  baseUrl := "https://api.etherscan.io/api"
  apiKey := some apiKey

/-! ## Requests -/

/-- A byte of a query value: letters, digits and `*-._` stand for themselves,
a space becomes `+`, and any other byte two hexadecimal digits behind `%`. -/
def encodeByte (byte : UInt8) : List Char :=
  let char := Char.ofNat byte.toNat
  if byte.toNat < 128 ∧ (char.isAlphanum ∨ char ∈ ['*', '-', '.', '_']) then [char]
  else if char = ' ' then ['+']
  else
    let digit (value : Nat) := (Nat.digitChar value).toUpper
    ['%', digit (byte.toNat / 16), digit (byte.toNat % 16)]

def encodeText (text : String) : String :=
  String.ofList (text.toUTF8.toList.flatMap encodeByte)

/-- Names and values of a query, each value behind its name. -/
def encodeQuery (parameters : List (String × String)) : String :=
  "&".intercalate <| parameters.map fun (name, value) => encodeText name ++ "=" ++ encodeText value

/-- What is asked about one address: the first of its transactions in ascending
order. -/
def parameters (explorer : Explorer) (address : String) : List (String × String) :=
  [("module", "account"),
   ("action", "txlist"),
   ("address", address),
   ("startblock", "0"),
   ("sort", "asc"),
   ("page", "1"),
   ("offset", "1")] ++
    (explorer.apiKey.map fun key => ("apikey", key)).toList

/-- The address of a request. A query that the base address already has is kept
in front. -/
def requestUrl (explorer : Explorer) (address : String) : String :=
  let query := encodeQuery (explorer.parameters address)
  let separator :=
    if explorer.baseUrl.toList.contains '?' then
      if explorer.baseUrl.endsWith "?" then "" else "&"
    else "?"
  explorer.baseUrl ++ separator ++ query

/-! ## Replies -/

structure HttpReply where
  status : Nat
  body : String

/-- The height in a list of transactions, oldest first. -/
def readTransactions : List Json → Except NodeError (Option Nat)
  | [] => .ok none
  | transaction :: _ =>
      let height := transaction.field "blockNumber"
      let parse (text : String) :=
        match Quantity.parse text with
        | .ok value => .ok (some value)
        | .error fault => .error (.decode (Quantity.describeFault text fault))
      match height with
      | .string text => parse text
      | .integer _ => parse height.print
      | .real _ => parse height.print
      | other => .error (.decode ("explorer transaction without block number: " ++ other.print))

/-- The height of the oldest transaction in an explorer's answer, if there is
any. A text in place of the list is an error message, unless the explorer says
that there are no transactions. -/
def readAnswer (body : Json) : Except NodeError (Option Nat) :=
  let message :=
    match body.field "message" with
    | .string text => text
    | _ => ""
  match body.field "result" with
  | .array transactions => readTransactions transactions
  | .string detail =>
      if "No transactions found".toList.isPrefixOf message.toList then .ok none
      else .error (.rpc 0 ("explorer error: " ++ message ++ ": " ++ detail))
  | other => .error (.decode ("unexpected explorer result: " ++ other.print))

/-- What an HTTP answer says about an address. -/
def readReply (reply : HttpReply) : Except NodeError (Option Nat) :=
  if 400 ≤ reply.status then .error (.transport unspecified)
  else
    match Json.parse? reply.body with
    | some body => readAnswer body
    | none => .error (.decode unspecified)

/-! ## First blocks -/

/-- The lower of two heights, where none is known for an address without
transactions. -/
def earlier : Option Nat → Option Nat → Option Nat
  | some first, some second => some (min first second)
  | some first, none => some first
  | none, second => second

/-- The lowest block that touches any of the addresses, asked one by one. The
first failure ends the search; `get` fetches a page. -/
def firstBlock [Monad m] (explorer : Explorer) (get : String → m (Except NodeError HttpReply)) :
    (addresses : List String) → (found : Option Nat := none) →
    m (Except NodeError (Option Nat))
  | [], found => return .ok found
  | address :: rest, found => do
      match (← get (explorer.requestUrl address)) >>= readReply with
      | .ok height => firstBlock explorer get rest (earlier found height)
      | .error error => return .error error

end Explorer

end ReorgSync
