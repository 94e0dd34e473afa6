import ReorgSync.Text.Quoted
import ReorgSync.Word

namespace ReorgSync

/-! Quantities: unsigned 64-bit numbers as texts. They are written in
hexadecimal behind `0x`; reading also accepts decimal digits, since some nodes
and indexes answer with those. -/

namespace Quantity

def limit : Nat := Word.size 64

inductive Fault where
  | empty
  | invalidDigit
  | tooLarge
deriving DecidableEq, Repr

def Fault.message : Fault → String
  | .empty => "cannot parse integer from empty string"
  | .invalidDigit => "invalid digit found in string"
  | .tooLarge => "number too large to fit in target type"

/-- The value of a digit, for bases up to sixteen. -/
def digit? (base : Nat) (char : Char) : Option Nat :=
  let value :=
    if '0' ≤ char ∧ char ≤ '9' then some (char.toNat - '0'.toNat)
    else if 'a' ≤ char ∧ char ≤ 'f' then some (char.toNat - 'a'.toNat + 10)
    else if 'A' ≤ char ∧ char ≤ 'F' then some (char.toNat - 'A'.toNat + 10)
    else none
  value.filter (· < base)

/-- Read digits behind a number already read. The first fault from the left is
reported, so a text that grows too large before its first bad character counts
as too large. -/
def digits (base : Nat) : List Char → Nat → Except Fault Nat
  | [], value => .ok value
  | char :: rest, value =>
      match digit? base char with
      | none => .error .invalidDigit
      | some next =>
          if value * base + next < limit then digits base rest (value * base + next)
          else .error .tooLarge

/-- Read an unsigned number: at least one digit, behind at most one `+`. -/
def unsigned (base : Nat) : List Char → Except Fault Nat
  | [] => .error .empty
  | ['+'] => .error .invalidDigit
  | '+' :: rest => digits base rest 0
  | chars => digits base chars 0

/-- Read a quantity: hexadecimal behind `0x` or `0X`, where no digit at all
means zero, and decimal otherwise. -/
def parse (text : String) : Except Fault Nat :=
  match text.toList with
  | ['0', 'x'] => .ok 0
  | ['0', 'X'] => .ok 0
  | '0' :: 'x' :: rest => unsigned 16 rest
  | '0' :: 'X' :: rest => unsigned 16 rest
  | chars => unsigned 10 chars

def hexDigits (value : Nat) : String :=
  String.ofList (Nat.toDigits 16 value)

def encode (value : Nat) : String :=
  "0x" ++ hexDigits value

def describeFault (text : String) (fault : Fault) : String :=
  "bad quantity " ++ Text.quote text ++ ": " ++ fault.message

/-- Both bases, a sign, and the empty hexadecimal text. -/
example : parse "0x1A" = .ok 26 ∧ parse "+26" = .ok 26 ∧ parse "0x" = .ok 0 :=
  ⟨rfl, rfl, rfl⟩

/-- The largest quantity is accepted, its successor is not. -/
example : parse "18446744073709551615" = .ok (limit - 1) ∧
    parse "0x10000000000000000" = .error .tooLarge :=
  ⟨rfl, rfl⟩

end Quantity

end ReorgSync
