import ReorgSync.Json

namespace ReorgSync.Json

/-! Compact JSON text: no blanks, and escapes only where JSON demands them. -/

/-- The lower-case hexadecimal digit of a number below sixteen. -/
def hexDigit (value : Nat) : Char :=
  (Nat.toDigits 16 value).headD '0'

/-- One character inside a JSON string. Control characters without a short
escape are written with four hexadecimal digits. -/
def escapeChar (char : Char) : List Char :=
  match char with
  | '\"' => ['\\', '\"']
  | '\\' => ['\\', '\\']
  | '\x08' => ['\\', 'b']
  | '\x0c' => ['\\', 'f']
  | '\n' => ['\\', 'n']
  | '\r' => ['\\', 'r']
  | '\t' => ['\\', 't']
  | _ =>
      if char.toNat < 32 then
        ['\\', 'u', '0', '0', hexDigit (char.toNat / 16), hexDigit (char.toNat % 16)]
      else [char]

def quoteString (text : String) : String :=
  String.ofList ('\"' :: text.toList.flatMap escapeChar ++ ['\"'])

mutual

def print : Json → String
  | .null => "null"
  | .bool true => "true"
  | .bool false => "false"
  | .integer value => toString value
  | .real value => value.text
  | .string value => quoteString value
  | .array items => "[" ++ printItems items ++ "]"
  | .object fields => "\x7b" ++ printFields fields ++ "\x7d"

def printItems : List Json → String
  | [] => ""
  | [item] => print item
  | item :: rest => print item ++ "," ++ printItems rest

def printFields : List (String × Json) → String
  | [] => ""
  | [(name, value)] => quoteString name ++ ":" ++ print value
  | (name, value) :: rest =>
      quoteString name ++ ":" ++ print value ++ "," ++ printFields rest

end

end ReorgSync.Json
