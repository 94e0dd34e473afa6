namespace ReorgSync.Decimal

/-! Decimal numbers as binary fractions of double precision, held as their 64
bits so that equality of numbers is equality of bits. -/

structure Binary where
  bits : UInt64
deriving DecidableEq, Repr

namespace Binary

def ofFloat (value : Float) : Binary where
  bits := value.toBits

def negate (number : Binary) : Binary where
  bits := number.bits ^^^ 0x8000000000000000

/-- Scale by a power of ten, rounding once for each power that is applied.
Powers beyond the largest representable one are applied in parts, which `fuel`
bounds; a product that is no longer finite is refused. -/
def scale (value : Float) : (fuel : Nat) → (exponent : Int) → Option Float
  | 0, _ => some 0
  | fuel + 1, exponent =>
      let power := exponent.natAbs
      if power ≤ 308 then
        let factor := Float.ofScientific 1 false power
        let scaled := if 0 ≤ exponent then value * factor else value / factor
        if scaled.isFinite then some scaled else none
      else if value == 0 then some 0
      else if 0 ≤ exponent then none
      else scale (value / Float.ofScientific 1 false 308) fuel (exponent + 308)

/-- The number nearest to `significand` times ten to the `exponent`, up to one
rounding each of the significand and of the scaled value. There is none if it
would not be finite. -/
def ofDecimal (negative : Bool) (significand : Nat) (exponent : Int) : Option Binary := do
  let magnitude ← scale (Float.ofNat significand) 4 exponent
  let number := ofFloat magnitude
  return if negative then number.negate else number

end Binary

end ReorgSync.Decimal
