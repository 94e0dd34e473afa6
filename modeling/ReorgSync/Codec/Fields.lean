import ReorgSync.Codec.Decoder

namespace ReorgSync.Codec

/-! Decoding records. A record is written as an object, whose fields may stand
in any order and among fields of other names, or as an array of its fields in
their own order. Fields are checked in the order in which they are written; a
field that is not there is noticed after that. -/

/-- One field: how it is decoded, and what it is if it is not written. -/
structure Field (α : Type) where
  name : String
  decoder : Decoder α
  default? : Option α
  /-- What a missing field is in an object; arrays know only defaults. -/
  absent? : Option α := default?

namespace Field

def required (name : String) (decoder : Decoder α) : Field α where
  name
  decoder
  default? := none

def withDefault (name : String) (value : α) (decoder : Decoder α) : Field α where
  name
  decoder
  default? := some value

/-- A field that may be `null`, and may be left out of an object. -/
def nullable (name : String) (decoder : Decoder α) : Field (Option α) where
  name
  decoder := decoder.optional
  default? := none
  absent? := some none

/-- Whether a draft can be decoded as this field, without the value. -/
def check (field : Field α) (draft : Json.Draft) : Except Fault Unit :=
  (field.decoder draft).map fun _ => ()

/-- The value of a field among named drafts; `absent` is what counts where it
is missing. -/
def read (field : Field α) (absent : Option α) (fault : Fault)
    (named : List (String × Json.Draft)) : Except Fault α :=
  match named.lookup field.name with
  | some draft => field.decoder draft
  | none =>
      match absent with
      | some value => .ok value
      | none => .error fault

end Field

/-- The fields of a record: how each of them is checked, and how the record is
made of them. -/
structure Fields (α : Type) where
  checks : List (String × (Json.Draft → Except Fault Unit))
  ofObject : List (String × Json.Draft) → Except Fault α
  ofArray : List (String × Json.Draft) → Except Fault α

namespace Fields

def of (value : α) : Fields α where
  checks := []
  ofObject := fun _ => .ok value
  ofArray := fun _ => .ok value

def and (fields : Fields (α → β)) (field : Field α) : Fields β where
  checks := fields.checks ++ [(field.name, field.check)]
  ofObject := fun named => do
    let make ← fields.ofObject named
    return make (← field.read field.absent? (.missingField field.name) named)
  ofArray := fun named => do
    let make ← fields.ofArray named
    return make (← field.read field.default? .malformed named)

/-- Check the fields of an object in the order in which they are written, and
collect those that belong to the record. None of these may be written twice;
others only have to be JSON. -/
def collect (checks : List (String × (Json.Draft → Except Fault Unit))) :
    List (Option String × Json.Draft) → (found : List (String × Json.Draft)) →
    Except Fault (List (String × Json.Draft))
  | [], found => .ok found
  | (none, _) :: _, _ => .error .malformed
  | (some name, draft) :: rest, found =>
      match checks.lookup name with
      | some check =>
          if (found.lookup name).isSome then .error .malformed
          else do
            check draft
            collect checks rest ((name, draft) :: found)
      | none =>
          if draft.wellFormed then collect checks rest found
          else .error .malformed

/-- Check the items of an array against the fields in their order. -/
def collectItems : List (String × (Json.Draft → Except Fault Unit)) → List Json.Draft →
    Except Fault (List (String × Json.Draft))
  | [], [] => .ok []
  | [], _ :: _ => .error .malformed
  | _ :: _, [] => .ok []
  | (name, check) :: checks, draft :: rest => do
      check draft
      return (name, draft) :: (← collectItems checks rest)

def decoder (fields : Fields α) : Decoder α
  | .object drafts complete => do
      let named ← collect fields.checks drafts []
      if complete then fields.ofObject named else throw .malformed
  | .array drafts complete => do
      let named ← collectItems fields.checks drafts
      let value ← fields.ofArray named
      if complete then return value else throw .malformed
  | _ => .error .malformed

end Fields

end ReorgSync.Codec
