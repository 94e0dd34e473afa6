namespace ReorgSync.Digest

/-! The SHA-256 digest of a sequence of bytes. -/

namespace Sha256

/-- Eight words, in the order in which a digest is written. -/
structure State where
  a : UInt32
  b : UInt32
  c : UInt32
  d : UInt32
  e : UInt32
  f : UInt32
  g : UInt32
  h : UInt32

def initial : State where
  a := 0x6a09e667
  b := 0xbb67ae85
  c := 0x3c6ef372
  d := 0xa54ff53a
  e := 0x510e527f
  f := 0x9b05688c
  g := 0x1f83d9ab
  h := 0x5be0cd19

/-- One constant for each of the sixty-four rounds. -/
def roundConstants : List UInt32 :=
  [0x428a2f98, 0x71374491, 0xb5c0fbcf, 0xe9b5dba5, 0x3956c25b, 0x59f111f1, 0x923f82a4, 0xab1c5ed5,
   0xd807aa98, 0x12835b01, 0x243185be, 0x550c7dc3, 0x72be5d74, 0x80deb1fe, 0x9bdc06a7, 0xc19bf174,
   0xe49b69c1, 0xefbe4786, 0x0fc19dc6, 0x240ca1cc, 0x2de92c6f, 0x4a7484aa, 0x5cb0a9dc, 0x76f988da,
   0x983e5152, 0xa831c66d, 0xb00327c8, 0xbf597fc7, 0xc6e00bf3, 0xd5a79147, 0x06ca6351, 0x14292967,
   0x27b70a85, 0x2e1b2138, 0x4d2c6dfc, 0x53380d13, 0x650a7354, 0x766a0abb, 0x81c2c92e, 0x92722c85,
   0xa2bfe8a1, 0xa81a664b, 0xc24b8b70, 0xc76c51a3, 0xd192e819, 0xd6990624, 0xf40e3585, 0x106aa070,
   0x19a4c116, 0x1e376c08, 0x2748774c, 0x34b0bcb5, 0x391c0cb3, 0x4ed8aa4a, 0x5b9cca4f, 0x682e6ff3,
   0x748f82ee, 0x78a5636f, 0x84c87814, 0x8cc70208, 0x90befffa, 0xa4506ceb, 0xbef9a3f7, 0xc67178f2]

def rotateRight (word : UInt32) (amount : UInt32) : UInt32 :=
  (word >>> amount) ||| (word <<< (32 - amount))

def bigSigma0 (word : UInt32) : UInt32 :=
  rotateRight word 2 ^^^ rotateRight word 13 ^^^ rotateRight word 22

def bigSigma1 (word : UInt32) : UInt32 :=
  rotateRight word 6 ^^^ rotateRight word 11 ^^^ rotateRight word 25

def smallSigma0 (word : UInt32) : UInt32 :=
  rotateRight word 7 ^^^ rotateRight word 18 ^^^ (word >>> 3)

def smallSigma1 (word : UInt32) : UInt32 :=
  rotateRight word 17 ^^^ rotateRight word 19 ^^^ (word >>> 10)

/-- Extend a message schedule, held newest word first, by `count` words. -/
def extendSchedule : (count : Nat) → (newestFirst : List UInt32) → List UInt32
  | 0, words => words
  | count + 1, words =>
      let next := smallSigma1 (words.getD 1 0) + words.getD 6 0 +
        smallSigma0 (words.getD 14 0) + words.getD 15 0
      extendSchedule count (next :: words)

def schedule (block : List UInt32) : List UInt32 :=
  (extendSchedule 48 block.reverse).reverse

/-- One round, with the sum of its constant and its schedule word. -/
def round (state : State) (word : UInt32) : State :=
  let choice := (state.e &&& state.f) ^^^ (~~~state.e &&& state.g)
  let majority := (state.a &&& state.b) ^^^ (state.a &&& state.c) ^^^ (state.b &&& state.c)
  let first := state.h + bigSigma1 state.e + choice + word
  let second := bigSigma0 state.a + majority
  { a := first + second, b := state.a, c := state.b, d := state.c,
    e := state.d + first, f := state.e, g := state.f, h := state.g }

def compress (state : State) (block : List UInt32) : State :=
  let last := (List.zipWith (· + ·) roundConstants (schedule block)).foldl round state
  { a := state.a + last.a, b := state.b + last.b, c := state.c + last.c, d := state.d + last.d,
    e := state.e + last.e, f := state.f + last.f, g := state.g + last.g, h := state.h + last.h }

/-- The `count` bytes of a number, most significant first. -/
def bigEndian (count value : Nat) : List UInt8 :=
  (List.range count).reverse.map fun place => UInt8.ofNat (value / Nat.pow 256 place % 256)

/-- The message with its end mark, zeros up to eight bytes before the end of a
block, and its length in bits. -/
def pad (message : List UInt8) : List UInt8 :=
  let zeros := (119 - message.length % 64) % 64
  message ++ 0x80 :: List.replicate zeros 0 ++ bigEndian 8 (8 * message.length)

/-- Four bytes to a word; an unfinished word is dropped. -/
def words : List UInt8 → List UInt32
  | first :: second :: third :: fourth :: rest =>
      ((first.toUInt32 <<< 24) ||| (second.toUInt32 <<< 16) |||
        (third.toUInt32 <<< 8) ||| fourth.toUInt32) :: words rest
  | _ => []

/-- Fold sixteen words at a time into the state; `count` is the number of
blocks. -/
def absorb : (count : Nat) → State → List UInt32 → State
  | 0, state, _ => state
  | count + 1, state, words => absorb count (compress state (words.take 16)) (words.drop 16)

def State.bytes (state : State) : List UInt8 :=
  [state.a, state.b, state.c, state.d, state.e, state.f, state.g, state.h].flatMap
    fun word => bigEndian 4 word.toNat

end Sha256

def sha256 (message : List UInt8) : List UInt8 :=
  let words := Sha256.words (Sha256.pad message)
  (Sha256.absorb (words.length / 16) Sha256.initial words).bytes

def hex (bytes : List UInt8) : String :=
  String.ofList <| bytes.flatMap fun byte =>
    [Nat.digitChar (byte.toNat / 16), Nat.digitChar (byte.toNat % 16)]

end ReorgSync.Digest
