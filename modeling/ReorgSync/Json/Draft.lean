import ReorgSync.Json

namespace ReorgSync.Json

/-! ## Drafts

A draft is what a text says as far as it is JSON. Where the text breaks off,
the draft is incomplete at that place and keeps what stands before it, so that
a reader who walks a draft from front to back meets its problems in the order
of the text. Two kinds of parts are well formed but stand for no value: strings
with half of a surrogate pair and numbers that are not finite, and with them
arrays and objects nested too deeply. A reader that skips them does not mind. -/

inductive Draft where
  /-- The text is not JSON from here on. -/
  | broken
  /-- Well formed, but without a value. -/
  | unreadable
  | null
  | bool (value : Bool)
  | integer (value : Int)
  | real (value : Decimal.Binary)
  | string (value : String)
  /-- The items up to the end of the array, or up to where the text breaks. -/
  | array (items : List Draft) (complete : Bool)
  /-- The fields in the order of the text; a name without a value is `none`. -/
  | object (fields : List (Option String × Draft)) (complete : Bool)
deriving Repr

namespace Draft

mutual

/-- The draft of a value lacks nothing. -/
def ofJson : Json → Draft
  | .null => .null
  | .bool value => .bool value
  | .integer value => .integer value
  | .real value => .real value
  | .string value => .string value
  | .array items => .array (ofItems items) true
  | .object fields => .object (ofFields fields) true

def ofItems : List Json → List Draft
  | [] => []
  | item :: rest => ofJson item :: ofItems rest

def ofFields : List (String × Json) → List (Option String × Draft)
  | [] => []
  | (name, value) :: rest => (some name, ofJson value) :: ofFields rest

end

mutual

/-- Whether the text of a draft is JSON, read or not. -/
def wellFormed : Draft → Bool
  | .broken => false
  | .array items complete => complete && itemsWellFormed items
  | .object fields complete => complete && fieldsWellFormed fields
  | _ => true

def itemsWellFormed : List Draft → Bool
  | [] => true
  | item :: rest => item.wellFormed && itemsWellFormed rest

def fieldsWellFormed : List (Option String × Draft) → Bool
  | [] => true
  | (_, value) :: rest => value.wellFormed && fieldsWellFormed rest

end

mutual

def toJson? : Draft → Option Json
  | .broken => none
  | .unreadable => none
  | .null => some .null
  | .bool value => some (.bool value)
  | .integer value => some (.integer value)
  | .real value => some (.real value)
  | .string value => some (.string value)
  | .array items complete => do
      let items ← itemsToJson? items
      if complete then some (.array items) else none
  | .object fields complete => do
      let fields ← fieldsToJson? fields
      if complete then some (Json.ofFields fields) else none

def itemsToJson? : List Draft → Option (List Json)
  | [] => some []
  | item :: rest => do return (← item.toJson?) :: (← itemsToJson? rest)

def fieldsToJson? : List (Option String × Draft) → Option (List (String × Json))
  | [] => some []
  | (name, value) :: rest => do
      return (← name, ← value.toJson?) :: (← fieldsToJson? rest)

end

/-- A draft nested too deeply has no value, but is still JSON if its text is. -/
def tooDeep (draft : Draft) : Draft :=
  if draft.wellFormed then .unreadable else .broken

end Draft

end ReorgSync.Json
