import ReorgSync.Config
import ReorgSync.Follower
import ReorgSync.Store.Entry

namespace ReorgSync

/-! A session keeps the entry of one filter in step with the chain. It owns the
entry as its only writer, follows the head through a follower that it may share
with others, and publishes every change it makes to the entry. -/

/-- What does not change during a session. -/
structure Setup where
  config : Config
  /-- Whether there is an index that knows where contracts first appear. -/
  hasHints : Bool := false

structure Session (ε : Type) where
  follower : Follower
  entry : ε
  /-- The changes that were applied to the entry. -/
  events : Feed Event := .unbounded
  phase : Phase := .idle
  /-- Whether the entry is known to belong to the node's chain. -/
  isIdentified : Bool := false

namespace Session

variable {ε : Type} [EntryStore ε]

def withFollower (routine : Routine Follower α) : Routine (Session ε) α :=
  routine.zoom Session.follower fun follower session => { session with follower }

/-- Look at the follower's window while no one changes it. -/
def inWindow (look : Window → α) : Routine (Session ε) α :=
  (Routine.get fun session => look session.follower.window).exclusively

def followedHead? : Routine (Session ε) (Option Block) :=
  inWindow Window.head?

/-- The deepest reorganisation that is repaired. -/
def backlog : Routine (Session ε) Nat :=
  .get (·.follower.backlog)

def enter (phase : Phase) : Routine (Session ε) Unit :=
  .modify fun session => { session with phase }

def readEntry (read : ε → Except SyncError α) : Routine (Session ε) α := do
  Routine.ofExcept (read (← Routine.get Session.entry))

/-- Change the entry; on failure it stays as it is. -/
def changeEntry (change : ε → Except SyncError ε) : Routine (Session ε) Unit := do
  let entry ← readEntry change
  Routine.modify fun session => { session with entry }

/-- Apply an event to the entry and publish it. An event that cannot be applied
is not published. -/
def apply (event : Event) : Routine (Session ε) Unit := do
  changeEntry (EntryStore.apply · event)
  Routine.modify fun session => { session with events := session.events.publish event }

/-- A call to the node that is given up on cancellation. -/
def call (call : Node.Call) : Routine (Session ε) call.Value :=
  (Routine.node call).guarded

def blockOr (name : String) (found : Option Block) : Routine (Session ε) Block :=
  match found with
  | some block => return block
  | none => .fail (.blockNotFound name)

def blockAt (height : Nat) : Routine (Session ε) Block := do
  blockOr (toString height) (← call (.blockByTag (.number height)))

def blockWithHash (hash : String) : Routine (Session ε) Block := do
  blockOr hash (← call (.blockByHash hash false))

/-- Ask for the logs of a block until the node answers, at most `attempts + 1`
times. -/
def retryLogs (query : LogQuery) (delay : Nat) :
    (attempts : Nat) → Routine (Session ε) (List Log)
  | 0 => call (.logs query)
  | attempts + 1 => do
      match ← (Routine.ask (.cancelableNode (.logs query)) .done).guarded with
      | none => .fail .canceled
      | some (.ok logs) => return logs
      | some (.error _) =>
          .sleep delay
          retryLogs query delay attempts

/-- The logs of one block, asked for by its hash. Nodes may serve a block before
its logs, so a failure is repeated some times. -/
def blockLogs (config : Config) (hash : String) : Routine (Session ε) (List Log) :=
  retryLogs ⟨config.filter, .blockHash hash⟩ config.retryDelay (max config.retryAttempts 1 - 1)

def logsOfBlocks (config : Config) : List Block → Routine (Session ε) (List Log)
  | [] => return []
  | block :: rest => do
      let logs ← blockLogs config block.hash
      return logs ++ (← logsOfBlocks config rest)

end Session

end ReorgSync
