import ReorgSync.Json.Lexical

namespace ReorgSync.Json

/-! Reading JSON text. Arrays and objects may be nested to a fixed depth; a
text that goes deeper is still read to its end, so that a reader who skips the
deep part can go on behind it. -/

/-- The deepest nesting that has a value. -/
def maxDepth : Nat := 127

namespace Draft

open Lexical

/-- What was read, and the text behind it unless it broke off. -/
abbrev Read (α : Type) := α × Option (List Char)

/-- A fixed word, whose first letter was read before. -/
def ofWord (expected : String) (draft : Draft) (text : List Char) : Read Draft :=
  match word? expected.toList text with
  | some rest => (draft, some rest)
  | none => (.broken, none)

/-- The name of a field, and the text behind its colon. -/
def readName (text : List Char) : Option (Option String × Option (List Char)) :=
  match skipBlanks text with
  | '\"' :: rest =>
      match string? rest with
      | some (name, rest) =>
          match skipBlanks rest with
          | ':' :: rest => some (name, some rest)
          | _ => some (name, none)
      | none => none
  | _ => none

/-- An array or object that was read inside `depth` others. -/
def finish (depth : Nat) (draft : Draft) (rest : Option (List Char)) : Read Draft :=
  (if maxDepth ≤ depth then draft.tooDeep else draft, rest)

mutual

/-- Read one value inside `depth` arrays and objects. Every step takes at
least one character or hands on to one that does, so twice the length of the
text is fuel enough. -/
def readValue : (fuel depth : Nat) → List Char → Read Draft
  | 0, _, _ => (.broken, none)
  | fuel + 1, depth, text =>
      match skipBlanks text with
      | '[' :: rest =>
          let (items, rest) :=
            match skipBlanks rest with
            | ']' :: rest => ([], some rest)
            | _ => readItems fuel (depth + 1) rest
          finish depth (.array items rest.isSome) rest
      | '\x7b' :: rest =>
          let (fields, rest) :=
            match skipBlanks rest with
            | '\x7d' :: rest => ([], some rest)
            | _ => readFields fuel (depth + 1) rest
          finish depth (.object fields rest.isSome) rest
      | '\"' :: rest =>
          match string? rest with
          | some (some text, rest) => (.string text, some rest)
          | some (none, rest) => (.unreadable, some rest)
          | none => (.broken, none)
      | 't' :: rest => ofWord "rue" (.bool true) rest
      | 'f' :: rest => ofWord "alse" (.bool false) rest
      | 'n' :: rest => ofWord "ull" .null rest
      | text =>
          match number? text with
          | some (number, rest) => (number, some rest)
          | none => (.broken, none)

def readItems : (fuel depth : Nat) → List Char → Read (List Draft)
  | 0, _, _ => ([], none)
  | fuel + 1, depth, text =>
      match readValue fuel depth text with
      | (item, none) => ([item], none)
      | (item, some rest) =>
          match skipBlanks rest with
          | ']' :: rest => ([item], some rest)
          | ',' :: rest =>
              let (items, rest) := readItems fuel depth rest
              (item :: items, rest)
          | _ => ([item], none)

def readFields : (fuel depth : Nat) → List Char → Read (List (Option String × Draft))
  | 0, _, _ => ([], none)
  | fuel + 1, depth, text =>
      match readName text with
      | none => ([], none)
      | some (name, none) => ([(name, .broken)], none)
      | some (name, some rest) =>
          match readValue fuel depth rest with
          | (value, none) => ([(name, value)], none)
          | (value, some rest) =>
              match skipBlanks rest with
              | '\x7d' :: rest => ([(name, value)], some rest)
              | ',' :: rest =>
                  let (fields, rest) := readFields fuel depth rest
                  ((name, value) :: fields, rest)
              | _ => ([(name, value)], none)

end

/-- The draft of a whole text, and whether nothing but blanks stands behind
it. -/
def parse (text : String) : Draft × Bool :=
  let chars := text.toList
  match readValue (2 * chars.length + 2) 0 chars with
  | (draft, none) => (draft, false)
  | (draft, some rest) => (draft, (skipBlanks rest).isEmpty)

end Draft

def parse? (text : String) : Option Json :=
  match Draft.parse text with
  | (draft, true) => draft.toJson?
  | (_, false) => none

end ReorgSync.Json
