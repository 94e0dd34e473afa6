import ReorgSync.Decimal.Binary
import ReorgSync.Word

namespace ReorgSync.Decimal

/-! The shortest decimal text of a binary fraction: the fewest digits that lie
closer to the number than to any other number of the same precision, and among
those the digits nearest to it. All comparisons are made in whole numbers. -/

/-- A number as `mantissa · 2 ^ exponent`, and whether the gap below it is half
as wide as the gap above it. -/
structure Scaled where
  mantissa : Nat
  exponent : Int
  narrowBelow : Bool

def Binary.magnitude (number : Binary) : Scaled :=
  let fraction := number.bits.toNat % Word.size 52
  let biased := number.bits.toNat / Word.size 52 % Word.size 11
  if biased = 0 then ⟨fraction, -1074, false⟩
  else ⟨Word.size 52 + fraction, Int.ofNat biased - 1075, decide (fraction = 0 ∧ 1 < biased)⟩

/-- The numbers that round to a given one, as fractions over `unit`: the value
itself and the two ends of the interval, which belong to it or not together. -/
structure Interval where
  low : Nat
  value : Nat
  high : Nat
  unit : Nat
  closed : Bool

def Scaled.interval (scaled : Scaled) : Interval :=
  let exponent := scaled.exponent - 2
  let factor := Nat.pow 2 exponent.toNat
  { low := (4 * scaled.mantissa - if scaled.narrowBelow then 1 else 2) * factor
    value := 4 * scaled.mantissa * factor
    high := (4 * scaled.mantissa + 2) * factor
    unit := Nat.pow 2 (-exponent).toNat
    closed := scaled.mantissa % 2 == 0 }

/-- Whether `digits · 10 ^ power` lies in the interval. -/
def Interval.contains (interval : Interval) (digits : Nat) (power : Int) : Bool :=
  let point := digits * Nat.pow 10 power.toNat * interval.unit
  let grid := Nat.pow 10 (-power).toNat
  if interval.closed then decide (interval.low * grid ≤ point ∧ point ≤ interval.high * grid)
  else decide (interval.low * grid < point ∧ point < interval.high * grid)

/-- The power of ten of the leading digit, searched upwards from the smallest
that a number of double precision can have. -/
def Interval.leadingPower (interval : Interval) : Int :=
  let reaches (power : Int) : Bool :=
    decide (Nat.pow 10 power.toNat * interval.unit ≤ interval.value * Nat.pow 10 (-power).toNat)
  let rec climb : Nat → Int → Int
    | 0, power => power
    | fuel + 1, power => if reaches (power + 1) then climb fuel (power + 1) else power
  climb 640 (-325)

/-- The nearest point to the value on the grid of `10 ^ power`, if one of its
two neighbours there lies in the interval. Of two equally near points the one
with the even last digit is taken. -/
def Interval.nearest? (interval : Interval) (power : Int) : Option Nat :=
  let scaledValue := interval.value * Nat.pow 10 (-power).toNat
  let step := Nat.pow 10 power.toNat * interval.unit
  let below := scaledValue / step
  let remainder := scaledValue % step
  match interval.contains below power, interval.contains (below + 1) power with
  | true, true =>
      let roundDown := 2 * remainder < step ∨ (2 * remainder = step ∧ below % 2 = 0)
      some (if roundDown then below else below + 1)
  | true, false => some below
  | false, true => some (below + 1)
  | false, false => none

/-- Take away trailing zeros, counting them into the power. -/
def stripZeros : (fuel digits : Nat) → (power : Int) → Nat × Int
  | 0, digits, power => (digits, power)
  | fuel + 1, digits, power =>
      if digits ≠ 0 ∧ digits % 10 = 0 then stripZeros fuel (digits / 10) (power + 1)
      else (digits, power)

def Interval.shortest (interval : Interval) : Nat × Int :=
  let leading := interval.leadingPower
  let grids := (List.range 17).map fun (index : Nat) => leading - index
  let hit := grids.findSome? fun power => (interval.nearest? power).map (·, power)
  match hit with
  | some (digits, power) => stripZeros 20 digits power
  | none => (interval.value / interval.unit, 0)

/-- Where the texts of numbers switch from positions to an exponent: a decimal
point at most sixteen places from the first digit to the right, and at most
four zeros behind the point to the left, is written in positions. -/
def largestPositional : Int := 16

def smallestPositional : Int := -5

/-- The text of digits whose last one stands at `power`. A number written in
positions always has a digit behind the point. -/
def layOut (digits : Nat) (power : Int) : String :=
  let text := toString digits
  let count := (text.length : Int)
  let point := count + power
  let zeros (amount : Int) : String := String.ofList (List.replicate amount.toNat '0')
  if 0 ≤ power ∧ point ≤ largestPositional then text ++ zeros power ++ ".0"
  else if 0 < point ∧ point ≤ largestPositional then
    String.ofList (text.toList.take point.toNat) ++ "." ++
      String.ofList (text.toList.drop point.toNat)
  else if smallestPositional < point ∧ point ≤ 0 then "0." ++ zeros (-point) ++ text
  else
    let tail := text.toList.drop 1
    let fraction := if tail.isEmpty then "" else "." ++ String.ofList tail
    String.ofList (text.toList.take 1) ++ fraction ++ "e" ++ toString (point - 1)

/-- The shortest text of a number. Zero keeps its sign. -/
def Binary.text (number : Binary) : String :=
  let sign := if number.bits.toNat < Word.size 63 then "" else "-"
  let scaled := number.magnitude
  if scaled.mantissa = 0 then sign ++ "0.0"
  else
    let (digits, power) := scaled.interval.shortest
    sign ++ layOut digits power

end ReorgSync.Decimal
