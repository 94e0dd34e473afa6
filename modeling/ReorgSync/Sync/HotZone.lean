import ReorgSync.Sync.Backfill

namespace ReorgSync

/-! Near the head, blocks may still be displaced. They are fetched one by one
along their parent hashes, from the followed head down to the stored block, and
their logs are asked for by hash; so what is stored belongs to one branch. -/

namespace Session

variable {ε : Type} [EntryStore ε]

/-- Bring the follower up to the node's head, and answer the head it follows. A
follower that saw nothing yet, or that is far behind, fills its window anew. -/
def refreshHead : Routine (Session ε) Block := do
  let latest ← blockOr "latest" (← call (.blockByTag .latest))
  let backlog ← backlog
  let isBehind :=
    match ← followedHead? with
    | some head => decide (head.number + backlog < latest.number)
    | none => true
  if isBehind then (withFollower Follower.fill).guardedExclusively
  else do
    let _ ← (withFollower (Follower.reconcile latest)).guardedExclusively
  blockOr "latest" (← followedHead?)

/-- The parent of a block, from the follower's window if it is there. -/
def parentOf (block : Block) : Routine (Session ε) Block := do
  match ← inWindow (·.find? block.parentHash) with
  | some parent => return parent
  | none => blockWithHash block.parentHash

/-- One step down from the oldest block of a run, given apart from the blocks
behind it, until a height is reached. -/
def descendStep (origin : Nat) (run : Block × List Block) :
    Routine (Session ε) ((Block × List Block) ⊕ (Block × List Block)) := do
  if origin < run.1.number then
    Routine.checkCanceled
    let parent ← parentOf run.1
    return .inl (parent, run.1 :: run.2)
  else return .inr run

/-- The blocks from a height up to a head, for at most so many steps. -/
def descend (turns origin : Nat) (head : Block) : Routine (Session ε) (Block × List Block) :=
  Routine.iterate (descendStep origin) turns (head, [])

/-- Store the blocks from `origin` up to the followed head as one event. Answers
the block that the entry ends at, or `none` if the blocks do not extend the
stored one. -/
def hotZone (config : Config) (turns origin : Nat) (last : Option Block) :
    Routine (Session ε) (Option Block) := do
  let head ← refreshHead
  if head.number < origin then
    match last with
    | some last => return some last
    | none => .fail (.storeAheadOfHead origin head.number)
  else
    enter .hotZone
    let (oldest, newer) ← descend turns origin head
    if last.all fun last => oldest.parentHash == last.hash then
      let logs ← logsOfBlocks config (oldest :: newer)
      apply (.append logs head)
      return some head
    else return none

end Session

end ReorgSync
