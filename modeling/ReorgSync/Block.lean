namespace ReorgSync

/-! Blocks of a hash-linked chain, reduced to what following the chain needs.
A block is identified by its hash; its number is its height on the branch it
belongs to. Hashes are opaque texts: nothing here looks inside them. -/

structure Block where
  number : Nat
  hash : String
  parentHash : String
  timestamp : Nat := 0
deriving DecidableEq, Repr

namespace Block

/-- `child.Extends parent`: `parent` is the direct parent of `child`. Both the
height and the link have to agree, so a block never extends two heights. -/
def Extends (child parent : Block) : Prop :=
  child.number = parent.number + 1 ∧ child.parentHash = parent.hash

instance (child parent : Block) : Decidable (child.Extends parent) :=
  inferInstanceAs (Decidable (_ ∧ _))

/-- The name of a block in messages for people: height and hash. -/
def describe (block : Block) : String :=
  s!"#{block.number} ({block.hash})"

/-- A linked run, oldest block first: each block extends the one before it. -/
def Linked : List Block → Prop
  | older :: newer :: rest => newer.Extends older ∧ Linked (newer :: rest)
  | _ => True

instance decidableLinked : (blocks : List Block) → Decidable (Linked blocks)
  | [] => isTrue trivial
  | [_] => isTrue trivial
  | older :: newer :: rest =>
      have := decidableLinked (newer :: rest)
      inferInstanceAs (Decidable (newer.Extends older ∧ Linked (newer :: rest)))

/-- Two heights with matching hashes form a linked run. -/
example : Linked [⟨4, "0xa", "0x9", 0⟩, ⟨5, "0xb", "0xa", 0⟩] := by decide

/-- The link alone is not enough: the height has to grow by one. -/
example : ¬ Linked [⟨4, "0xa", "0x9", 0⟩, ⟨6, "0xb", "0xa", 0⟩] := by decide

end Block

/-- How a followed chain changed: the blocks that became canonical and the
blocks they displaced, both oldest first. -/
structure Delta where
  added : List Block := []
  removed : List Block := []
deriving DecidableEq, Repr

/-- A delta that displaces blocks is a reorganisation. -/
def Delta.isReorg (delta : Delta) : Bool :=
  !delta.removed.isEmpty

end ReorgSync
