import ReorgSync.Text.Unprintable

namespace ReorgSync.Text

/-! Texts quoted for messages: between double quotes, with everything that
would not be seen, or would end the quote early, written as an escape. -/

/-- The escape for a code point: its hexadecimal digits between braces. -/
def codePointEscape (char : Char) : List Char :=
  ['\\', 'u', '\x7b'] ++ Nat.toDigits 16 char.toNat ++ ['\x7d']

/-- One character of a quoted text. -/
def quoteChar (char : Char) : List Char :=
  match char with
  | '\x00' => ['\\', '0']
  | '\t' => ['\\', 't']
  | '\r' => ['\\', 'r']
  | '\n' => ['\\', 'n']
  | '\\' => ['\\', '\\']
  | '\"' => ['\\', '\"']
  | _ => if isUnprintable char then codePointEscape char else [char]

/-- A text between double quotes. -/
def quote (text : String) : String :=
  String.ofList ('\"' :: text.toList.flatMap quoteChar ++ ['\"'])

end ReorgSync.Text
