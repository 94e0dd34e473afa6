import ReorgSync.Sync.Session

namespace ReorgSync

/-! Where to go on: the position up to which the entry agrees with the chain.
What was stored of a branch that is not canonical any more is taken back. -/

namespace Session

variable {ε : Type} [EntryStore ε]

/-! ## Cutting -/

/-- Scan the logs below `index` from the newest on, and stop at the first that
lies below a height. Answers the index of the cut and the logs behind it. -/
def scanBack (entry : ε) (height : Nat) :
    (index : Nat) → (removed : List Log) → Except SyncError (Nat × List Log)
  | 0, removed => .ok (0, removed)
  | index + 1, removed => do
      match ← EntryStore.log? entry index with
      | none => return (index + 1, removed)
      | some log =>
          if log.blockNumber < height then return (index + 1, removed)
          else scanBack entry height index (log :: removed)

/-- Where an entry has to be cut to lose its newest logs down to a height, and
the logs that are lost, oldest first. -/
def rollbackPoint (height : Nat) (entry : ε) : Except SyncError (Nat × List Log) := do
  scanBack entry height (← EntryStore.lastIndex entry) []

/-! ## The common ancestor -/

/-- Walk back on the stored and on the canonical branch, one block at a time on
both, until they meet. `last` is the stored block that the walk started at. -/
def commonAncestor (last : Block) (backlog : Nat) :
    (steps : Nat) → (stored canonical : Block) → Routine (Session ε) Block
  | 0, stored, canonical =>
      if stored.hash = canonical.hash then return canonical
      else .fail (.reorgTooDeep last.number backlog)
  | steps + 1, stored, canonical =>
      if stored.hash = canonical.hash then return canonical
      else if stored.number = 0 then .fail (.reorgTooDeep last.number backlog)
      else do
        let stored ← blockWithHash stored.parentHash
        let canonical ← blockWithHash canonical.parentHash
        commonAncestor last backlog steps stored canonical

/-- The newest stored block that is canonical. If that is not the last one, the
entry is cut behind it. -/
def reconcilePosition (last : Block) : Routine (Session ε) Block := do
  let head ← call .height
  if head < last.number then .fail (.storeAheadOfHead last.number head)
  else
    let canonical ← blockAt last.number
    if canonical.hash = last.hash then return last
    else
      let backlog ← backlog
      let ancestor ← commonAncestor last backlog backlog last canonical
      let above ← Routine.sum ancestor.number 1
      let (index, removed) ← readEntry (rollbackPoint above)
      apply { added := [], removed, truncateTo := some index, block := ancestor }
      return ancestor

/-! ## The first height to scan -/

/-- Where to start with an empty entry: at the configured block, at the first
block that an index knows, or at genesis. An index that fails is ignored. -/
def start (setup : Setup) : Routine (Session ε) Nat := do
  match setup.config.startBlock with
  | some number =>
      let head ← call .height
      if head < number then .fail (.storeAheadOfHead number head)
      else return number
  | none =>
      if setup.hasHints ∧ setup.config.filter.hasAddresses then
        Routine.checkCanceled
        match ← Routine.query (.hint setup.config.filter.addresses) with
        | none => .fail .canceled
        | some (.ok (some number)) => return number
        | some _ => return 0
      else return 0

/-- The first height that is not stored yet, and the block that the entry ends
at. -/
def origin (setup : Setup) : Routine (Session ε) (Nat × Option Block) := do
  match ← readEntry EntryStore.lastBlock with
  | some last =>
      let ancestor ← reconcilePosition last
      return (← Routine.sum ancestor.number 1, some ancestor)
  | none => return (← start setup, none)

end Session

end ReorgSync
