import ReorgSync.Error
import ReorgSync.Json.Parse
import ReorgSync.Quantity

namespace ReorgSync.Codec

/-! Reading domain values out of JSON. A decoder walks a draft from front to
back, so of several problems in one text the first is reported. -/

/-- Why a draft does not describe a value. -/
inductive Fault where
  /-- An object lacks a field that has no default. -/
  | missingField (name : String)
  /-- A text that should be a quantity is none. -/
  | badQuantity (text : String) (fault : Quantity.Fault)
  /-- The text is not JSON, or JSON of another shape. -/
  | malformed
deriving DecidableEq, Repr

def Fault.message : Fault → String
  | .missingField name => s!"missing field \x60{name}\x60"
  | .badQuantity text fault => Quantity.describeFault text fault
  | .malformed => unspecified

abbrev Decoder (α : Type) := Json.Draft → Except Fault α

namespace Decoder

def ofJson (decoder : Decoder α) (value : Json) : Except Fault α :=
  decoder (.ofJson value)

/-- Decode a whole text, which must end behind the value. -/
def ofText (decoder : Decoder α) (text : String) : Except Fault α := do
  let (draft, ended) := Json.Draft.parse text
  let value ← decoder draft
  if ended then return value else throw .malformed

/-! ## Single values -/

def string : Decoder String
  | .string value => .ok value
  | _ => .error .malformed

def json : Decoder Json := fun draft =>
  match draft.toJson? with
  | some value => .ok value
  | none => .error .malformed

def integer (low high : Int) : Decoder Int
  | .integer value => if low ≤ value ∧ value ≤ high then .ok value else .error .malformed
  | _ => .error .malformed

def natural (bits : Nat) : Decoder Nat := fun draft =>
  (integer 0 (Word.size bits - 1) draft).map Int.toNat

def signed (bits : Nat) : Decoder Int :=
  integer (Word.lowest bits) (Word.highest bits)

/-- A quantity: a whole number, or a text that reads as one. -/
def quantity : Decoder Nat
  | .string text =>
      match Quantity.parse text with
      | .ok value => .ok value
      | .error fault => .error (.badQuantity text fault)
  | draft => natural 64 draft

/-- `null` stands for no value. -/
def optional (decoder : Decoder α) : Decoder (Option α)
  | .null => .ok none
  | draft => (decoder draft).map some

/-- The items of an array, up to the first that cannot be decoded. -/
def items (decoder : Decoder α) : List Json.Draft → Except Fault (List α)
  | [] => .ok []
  | item :: rest => do
      let value ← decoder item
      return value :: (← items decoder rest)

def list (decoder : Decoder α) : Decoder (List α)
  | .array drafts complete => do
      let values ← items decoder drafts
      if complete then return values else throw .malformed
  | _ => .error .malformed

end Decoder

end ReorgSync.Codec
