import ReorgSync.Sync.Catchup

namespace ReorgSync

/-! After the first synchronisation, a session follows the deltas that its
follower publishes. Each delta becomes one event, as long as it connects to the
block that the entry ends at; otherwise the session synchronises again. -/

inductive LiveStep where
  /-- It was stored, and the entry ends at this block. -/
  | applied (block : Block)
  /-- It holds nothing above the stored block. -/
  | skipped
  /-- It does not connect to the stored block. -/
  | gap
deriving DecidableEq, Repr

/-- The block that a delta has to connect to, and what has to be taken back for
that. -/
structure Base where
  number : Nat
  hash : String
  truncateTo : Option Nat := none
  removed : List Log := []
deriving DecidableEq, Repr

/-- Where the live loop stands: its position in the follower's deltas, and the
block that the entry ends at. -/
structure Live where
  position : Nat
  last : Block
deriving DecidableEq, Repr

namespace Session

variable {ε : Type} [EntryStore ε]

/-- The base of a delta for an entry that ends at `last`; `none` if the entry is
on neither side of a reorganisation that reaches it. -/
def baseOf (last : Block) (delta : Delta) : Routine (Session ε) (Option Base) := do
  let unchanged : Base := { number := last.number, hash := last.hash }
  match delta.removed with
  | [] => return some unchanged
  | first :: _ =>
      if last.number < first.number then return some unchanged
      else if delta.removed.any (·.hash == last.hash) then
        let (index, removed) ← readEntry (rollbackPoint first.number)
        return some {
          number := first.number - 1
          hash := first.parentHash
          truncateTo := some index
          removed }
      else if delta.added.any (·.hash == last.hash) then return some unchanged
      else return none

/-- Store the part of a delta above the entry's last block. -/
def applyDelta (config : Config) (last : Block) (delta : Delta) :
    Routine (Session ε) LiveStep := do
  match ← baseOf last delta with
  | none => return .gap
  | some base =>
      let added := delta.added.filter fun block => decide (base.number < block.number)
      match added.head?, added.getLast? with
      | some first, some newest =>
          if first.number = base.number + 1 ∧ first.parentHash = base.hash then
            let logs ← logsOfBlocks config added
            apply { added := logs, removed := base.removed, truncateTo := base.truncateTo,
                    block := newest }
            return .applied newest
          else return .gap
      | _, _ => return .skipped

/-- Synchronise again, and go on from the given position in the deltas. -/
def resume (setup : Setup) (turns position : Nat) : Routine (Session ε) Live := do
  let last ← catchUp setup turns
  enter .live
  return { position, last }

/-- One turn of the live loop: take the next delta, or wait for one. An item
that is there is taken even if the session is canceled. -/
def liveStep (setup : Setup) (turns : Nat) (live : Live) :
    Routine (Session ε) (Live ⊕ Empty) := do
  let deltas ← Routine.get (·.follower.deltas)
  match deltas.find live.position with
  | .lost => return .inl (← resume setup turns deltas.tail)
  | .nothing =>
      if ← Routine.query .idle then .fail .canceled
      else return .inl live
  | .item delta =>
      let position := live.position + 1
      match ← applyDelta setup.config live.last delta with
      | .applied last => return .inl { position, last }
      | .skipped => return .inl { live with position }
      | .gap => return .inl (← resume setup turns position)

/-- Synchronise, and then follow the deltas. Deltas that are published during
the synchronisation are not missed. -/
def follow (setup : Setup) (turns : Nat) : Routine (Session ε) Empty := do
  let position ← Routine.get (·.follower.deltas.tail)
  let live ← resume setup turns position
  Routine.iterate (liveStep setup turns) turns live

/-- Keep the entry in step with the chain until the session is canceled, which
is no error. -/
def run (setup : Setup) (turns : Nat) : Routine (Session ε) Unit := do
  match ← (concluding (follow setup turns)).attempt with
  | .ok never => nomatch never
  | .error error => if error.isCanceled then return () else .fail error

end Session

end ReorgSync
