import ReorgSync.Decimal.Shortest

namespace ReorgSync

/-! JSON values. Whole numbers keep all their digits as long as they fit a
signed or an unsigned 64-bit word; every other number is a binary fraction.
The fields of an object that was read are in ascending order of their names,
without repeats. -/

inductive Json where
  | null
  | bool (value : Bool)
  | integer (value : Int)
  | real (value : Decimal.Binary)
  | string (value : String)
  | array (items : List Json)
  | object (fields : List (String × Json))
deriving Repr, BEq

namespace Json

/-- A natural number as a JSON value. -/
def natural (value : Nat) : Json :=
  .integer value

/-- A list of texts as a JSON value. -/
def strings (values : List String) : Json :=
  .array (values.map .string)

/-- An optional value, where `null` stands for none. -/
def optional (encode : α → Json) : Option α → Json
  | none => .null
  | some value => encode value

/-- The field of an object; `null` if there is none or the value is no
object. -/
def field (value : Json) (name : String) : Json :=
  match value with
  | .object fields => (fields.lookup name).getD .null
  | _ => .null

/-- Put a field into fields that are in ascending order of their names,
replacing one of the same name. -/
def insertField (name : String) (value : Json) :
    List (String × Json) → List (String × Json)
  | [] => [(name, value)]
  | (other, held) :: rest =>
      if name < other then (name, value) :: (other, held) :: rest
      else if name = other then (name, value) :: rest
      else (other, held) :: insertField name value rest

/-- The object of some fields, where the last of two fields of one name
counts. -/
def ofFields (fields : List (String × Json)) : Json :=
  .object (fields.foldl (fun sorted field => insertField field.1 field.2 sorted) [])

end Json

end ReorgSync
