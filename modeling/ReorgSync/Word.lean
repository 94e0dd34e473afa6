namespace ReorgSync.Word

/-! Words of a fixed number of bits, by the numbers that they hold. -/

/-- How many values a word of so many bits has: an unsigned word holds the
numbers below it. -/
def size (bits : Nat) : Nat :=
  Nat.pow 2 bits

/-- The smallest number of a signed word. -/
def lowest (bits : Nat) : Int :=
  -(size (bits - 1) : Int)

/-- The largest number of a signed word. -/
def highest (bits : Nat) : Int :=
  (size (bits - 1) : Int) - 1

/-- The range of the signed words of eight bits. -/
example : lowest 8 = -128 ∧ highest 8 = 127 := by decide

/-- What may lead out of the unsigned words. -/
inductive Operation where
  | addition
  | subtraction
deriving DecidableEq, Repr

/-- What is said of an operation whose result is no word. -/
def Operation.overflowMessage : Operation → String
  | .addition => "attempt to add with overflow"
  | .subtraction => "attempt to subtract with overflow"

end ReorgSync.Word
