import ReorgSync.Sync.HotZone

namespace ReorgSync

/-! A whole synchronisation: check that the entry belongs to the chain, find
where to go on, fetch by ranges, and fetch one by one. If the chain moves so
that the parts do not fit together, it starts again from what is stored. -/

namespace Session

variable {ε : Type} [EntryStore ε]

/-- Compare the identity of the node's chain with the recorded one, or record
it. -/
def identify : Routine (Session ε) Unit := do
  enter .preflight
  let genesis ← blockOr "0" (← call (.blockByTag (.number 0)))
  let chainId ← call .chainId
  match ← readEntry EntryStore.identity with
  | none => changeEntry (EntryStore.record · ⟨chainId, genesis.hash⟩)
  | some recorded =>
      if recorded.chainId ≠ chainId then .fail (.chainMismatch recorded.chainId chainId)
      else if recorded.genesisHash ≠ genesis.hash then
        .fail (.genesisMismatch recorded.genesisHash genesis.hash)
      else return ()

/-- Identify the chain, unless that succeeded before in this session. -/
def identifyOnce : Routine (Session ε) Unit := do
  if ← Routine.get Session.isIdentified then return ()
  else
    identify
    Routine.modify fun session => { session with isIdentified := true }

/-- One round: answers the block that the entry ends at, or `none` if the parts
did not fit together. -/
def round (setup : Setup) (turns : Nat) : Routine (Session ε) (Option Block) := do
  let (origin, last) ← origin setup
  match ← backfill setup.config turns origin last with
  | none => return none
  | some reached => hotZone setup.config turns reached.origin reached.last

def notLinked (rounds : Nat) : SyncError :=
  .other s!"block tracker head did not link to the stored chain after {rounds} attempts"

/-- Rounds until one succeeds, at most `left + 1` more after `past` in vain. -/
def rounds (setup : Setup) (turns : Nat) : (left past : Nat) → Routine (Session ε) Block
  | 0, past => do
      match ← round setup turns with
      | some block => return block
      | none => .fail (notLinked (past + 1))
  | left + 1, past => do
      match ← round setup turns with
      | some block => return block
      | none =>
          .sleep setup.config.retryDelay
          rounds setup turns left (past + 1)

/-- Bring the entry up to the head, whatever phase that leaves the session
in. -/
def catchUp (setup : Setup) (turns : Nat) : Routine (Session ε) Block := do
  identifyOnce
  rounds setup turns (max setup.config.retryAttempts 1 - 1) 0

def phaseAfter (error : SyncError) : Phase :=
  if error.isCanceled then .stopped else .error

/-- Do a piece of work, and enter the phase of its error if it fails. -/
def concluding (work : Routine (Session ε) α) : Routine (Session ε) α := do
  match ← work.attempt with
  | .ok value => return value
  | .error error =>
      enter (phaseAfter error)
      .fail error

/-- Bring the entry up to the head, and answer the block it ends at. What was
stored before a failure stays stored. -/
def sync (setup : Setup) (turns : Nat) : Routine (Session ε) Block :=
  concluding (catchUp setup turns)

end Session

end ReorgSync
