import ReorgSync.Json.Draft
import ReorgSync.Word

namespace ReorgSync.Json

/-! The smallest parts of JSON text: blanks, words, strings and numbers. Each
function takes the text that is left and answers what it read together with
what is left behind it, or nothing where the text is not JSON. -/

namespace Lexical

def isBlank (char : Char) : Bool :=
  char == ' ' || char == '\n' || char == '\t' || char == '\r'

def skipBlanks (text : List Char) : List Char :=
  text.dropWhile isBlank

/-- The text behind a fixed word. -/
def word? : (expected text : List Char) → Option (List Char)
  | [], text => some text
  | _ :: _, [] => none
  | char :: expected, other :: text => if char = other then word? expected text else none

/-! ### Strings -/

/-- A part of a string: a character as it stands, or a sixteen-bit unit that
was written as an escape and may be half of a pair. -/
inductive Part where
  | char (value : Char)
  | unit (value : Nat)

def hexValue? (char : Char) : Option Nat :=
  if '0' ≤ char ∧ char ≤ '9' then some (char.toNat - '0'.toNat)
  else if 'a' ≤ char ∧ char ≤ 'f' then some (char.toNat - 'a'.toNat + 10)
  else if 'A' ≤ char ∧ char ≤ 'F' then some (char.toNat - 'A'.toNat + 10)
  else none

/-- The character that a one-letter escape stands for. -/
def shortEscape? : Char → Option Char
  | '\"' => some '\"'
  | '\\' => some '\\'
  | '/' => some '/'
  | 'b' => some '\x08'
  | 'f' => some '\x0c'
  | 'n' => some '\n'
  | 'r' => some '\r'
  | 't' => some '\t'
  | _ => none

/-- The parts of a string up to its closing quote. Control characters have to
be escaped. -/
def parts? : List Char → Option (List Part × List Char)
  | [] => none
  | '\"' :: rest => some ([], rest)
  | '\\' :: 'u' :: first :: second :: third :: fourth :: rest => do
      let value := (← hexValue? first) * 4096 + (← hexValue? second) * 256 +
        (← hexValue? third) * 16 + (← hexValue? fourth)
      let (parts, rest) ← parts? rest
      return (.unit value :: parts, rest)
  | '\\' :: letter :: rest => do
      let char ← shortEscape? letter
      let (parts, rest) ← parts? rest
      return (.char char :: parts, rest)
  | '\\' :: [] => none
  | char :: rest =>
      if char.toNat < 32 then none
      else do
        let (parts, rest) ← parts? rest
        return (.char char :: parts, rest)

def isHighHalf (unit : Nat) : Bool :=
  decide (0xd800 ≤ unit ∧ unit ≤ 0xdbff)

def isLowHalf (unit : Nat) : Bool :=
  decide (0xdc00 ≤ unit ∧ unit ≤ 0xdfff)

/-- The characters of a string: a high half joins with the low half right
behind it, and no half stands alone. -/
def join? : List Part → Option (List Char)
  | [] => some []
  | .char char :: rest => (join? rest).map (char :: ·)
  | .unit high :: .unit low :: rest =>
      if isHighHalf high then
        if isLowHalf low then
          (join? rest).map
            (Char.ofNat (0x10000 + (high - 0xd800) * 0x400 + (low - 0xdc00)) :: ·)
        else none
      else if isLowHalf high then none
      else (join? (.unit low :: rest)).map (Char.ofNat high :: ·)
  | .unit single :: rest =>
      if isHighHalf single || isLowHalf single then none
      else (join? rest).map (Char.ofNat single :: ·)

/-- A string behind its opening quote: its text, if it has one. -/
def string? (text : List Char) : Option (Option String × List Char) := do
  let (parts, rest) ← parts? text
  return ((join? parts).map String.ofList, rest)

/-! ### Numbers -/

def digits (text : List Char) : List Char × List Char :=
  (text.takeWhile Char.isDigit, text.dropWhile Char.isDigit)

/-- The digits in front of the point: one zero, or digits without a leading
zero. -/
def whole? (text : List Char) : Option (List Char × List Char) :=
  match digits text with
  | ([], _) => none
  | ('0' :: _ :: _, _) => none
  | (found, rest) => some (found, rest)

def fraction? : List Char → Option (List Char × List Char)
  | '.' :: rest =>
      match digits rest with
      | ([], _) => none
      | found => some found
  | text => some ([], text)

def exponent? : List Char → Option (Option Int × List Char)
  | text@(letter :: rest) =>
      if letter = 'e' ∨ letter = 'E' then
        let (negative, rest) :=
          match rest with
          | '+' :: rest => (false, rest)
          | '-' :: rest => (true, rest)
          | _ => (false, rest)
        match digits rest with
        | ([], _) => none
        | (found, rest) =>
            let value : Int :=
              found.foldl (fun value digit => value * 10 + (digit.toNat - '0'.toNat)) 0
            some (some (if negative then -value else value), rest)
      else some (none, text)
  | [] => some (none, [])

/-- The leading digits whose value fits an unsigned word of 64 bits, and the
digits behind them. -/
def significant (value : Nat) : List Char → Nat × List Char
  | [] => (value, [])
  | digit :: rest =>
      let next := value * 10 + (digit.toNat - '0'.toNat)
      if next < Word.size 64 then significant next rest else (value, digit :: rest)

/-- The value of a number: whole if it is written without a point and without
a power of ten and fits a word, and a binary fraction otherwise. The digits in
front of the point fill a word as far as they fit, then those behind it; digits
left over count by their places only. -/
def numberValue (negative : Bool) (whole fraction : List Char) (exponent : Option Int) : Draft :=
  let (front, wholeLeft) := significant 0 whole
  let (value, fractionLeft) := significant front fraction
  let fitsWord := if negative then decide (0 < value ∧ Word.lowest 64 ≤ -value) else true
  if fraction.isEmpty && exponent.isNone && wholeLeft.isEmpty && fitsWord then
    .integer (if negative then -(value : Int) else value)
  else
    let places : Int := fraction.length - fractionLeft.length
    let power := exponent.getD 0 + wholeLeft.length - places
    match Decimal.Binary.ofDecimal negative value power with
    | some number => .real number
    | none => .unreadable

/-- A number, from its sign on. -/
def number? (text : List Char) : Option (Draft × List Char) := do
  let (negative, text) :=
    match text with
    | '-' :: rest => (true, rest)
    | _ => (false, text)
  let (whole, text) ← whole? text
  let (fraction, text) ← fraction? text
  let (exponent, text) ← exponent? text
  return (numberValue negative whole fraction exponent, text)

end Lexical

end ReorgSync.Json
