import ReorgSync.Block

namespace ReorgSync

/-! Logs written by contracts, and what one synchronisation step does to a
stored sequence of them. -/

structure Log where
  address : String
  topics : List String
  data : String
  blockNumber : Nat
  blockHash : String
  transactionHash : String
  transactionIndex : Nat
  logIndex : Nat := 0
deriving DecidableEq, Repr

/-- One change of a stored log sequence. With `truncateTo = some length` the
sequence is first cut to `length` logs; then `added` is appended and the
sequence ends at `block`. The logs a cut takes away are listed in `removed`,
oldest first, for readers that have to undo them. -/
structure Event where
  added : List Log
  removed : List Log
  truncateTo : Option Nat
  block : Block
deriving DecidableEq, Repr

namespace Event

/-- An event that only appends. -/
def append (added : List Log) (block : Block) : Event where
  added
  removed := []
  truncateTo := none
  block

end Event

/-- What tells one chain from another: its id and the hash of its block 0. -/
structure ChainIdentity where
  chainId : Nat
  genesisHash : String
deriving DecidableEq, Repr

end ReorgSync
