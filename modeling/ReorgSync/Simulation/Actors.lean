import ReorgSync.Store.Memory
import ReorgSync.Store.Table
import ReorgSync.Sync.Live

namespace ReorgSync.Simulation

/-! Followers and sessions that act in one scripted world, and share a store. -/

inductive AnyStore where
  | memory (store : MemoryStore)
  | table (store : TableStore)

instance : LogStore AnyStore where
  count
    | .memory store => LogStore.count store
    | .table store => LogStore.count store
  openEntry
    | .memory store, filter => (LogStore.openEntry store filter).map .memory
    | .table store, filter => (LogStore.openEntry store filter).map .table
  lastIndex
    | .memory store, key => LogStore.lastIndex store key
    | .table store, key => LogStore.lastIndex store key
  log?
    | .memory store, key, index => LogStore.log? store key index
    | .table store, key, index => LogStore.log? store key index
  logs
    | .memory store, key => LogStore.logs store key
    | .table store, key => LogStore.logs store key
  lastBlock
    | .memory store, key => LogStore.lastBlock store key
    | .table store, key => LogStore.lastBlock store key
  identity
    | .memory store, key => LogStore.identity store key
    | .table store, key => LogStore.identity store key
  tryApply
    | .memory store, key, event => (LogStore.tryApply store key event).map .memory
    | .table store, key, event => (LogStore.tryApply store key event).map .table
  tryRecord
    | .memory store, key, identity => (LogStore.tryRecord store key identity).map .memory
    | .table store, key, identity => (LogStore.tryRecord store key identity).map .table
  isWhole_tryApply
    | .memory store, key, event => (LogStore.isWhole_tryApply store key event).map AnyStore.memory
    | .table store, key, event => (LogStore.isWhole_tryApply store key event).map AnyStore.table
  isWhole_tryRecord
    | .memory store, key, identity => (LogStore.isWhole_tryRecord store key identity).map AnyStore.memory
    | .table store, key, identity => (LogStore.isWhole_tryRecord store key identity).map AnyStore.table

/-- A session without what it shares with others: its follower, by number, and
the store. -/
structure SessionState where
  setup : Setup
  follower : Nat
  key : String
  events : Feed Event := .unbounded
  phase : Phase := .idle
  isIdentified : Bool := false

/-- Everything that work on the stage may change. -/
structure Actors where
  store : AnyStore
  followers : List Follower := []
  sessions : List SessionState := []
  /-- What a scripted handler of heads will answer; then it accepts. -/
  outcomes : List (Option SyncError) := []
  /-- The blocks that were handed to a handler, newest first. -/
  delivered : List (Block × Option SyncError) := []

namespace Actors

def follower (actors : Actors) (number : Nat) : Follower :=
  actors.followers.getD number (.make 1 0 none)

def setFollower (number : Nat) (follower : Follower) (actors : Actors) : Actors :=
  { actors with followers := actors.followers.set number follower }

def session (state : SessionState) (actors : Actors) : Session (StoredEntry AnyStore) where
  follower := actors.follower state.follower
  entry := { store := actors.store, key := state.key }
  events := state.events
  phase := state.phase
  isIdentified := state.isIdentified

def sessionState (actors : Actors) (number : Nat) : SessionState :=
  actors.sessions.getD number { setup := { config := {} }, follower := 0, key := "" }

def setSession (number : Nat) (session : Session (StoredEntry AnyStore)) (actors : Actors) :
    Actors :=
  let state := actors.sessionState number
  let state := { state with
    events := session.events
    phase := session.phase
    isIdentified := session.isIdentified }
  { actors with
    store := session.entry.store
    followers := actors.followers.set state.follower session.follower
    sessions := actors.sessions.set number state }

end Actors

def onFollower (number : Nat) (routine : Routine Follower α) : Routine Actors α :=
  routine.zoom (·.follower number) (Actors.setFollower number)

def onSession (number : Nat) (routine : Routine (Session (StoredEntry AnyStore)) α) :
    Routine Actors α :=
  routine.zoom (fun actors => actors.session (actors.sessionState number))
    (Actors.setSession number)

/-! ## Handlers of heads -/

def recordDelivery (block : Block) (outcome : Option SyncError) : Routine Actors Unit :=
  .modify fun actors => { actors with delivered := (block, outcome) :: actors.delivered }

def scriptedHandler (block : Block) : Routine Actors Unit := do
  let outcome := (← Routine.get (·.outcomes.head?)).join
  Routine.modify fun actors => { actors with outcomes := actors.outcomes.tail }
  recordDelivery block outcome
  match outcome with
  | some error => .fail error
  | none => return ()

/-- A handler that reconciles the follower's window. -/
def followingHandler (number : Nat) (block : Block) : Routine Actors Unit := do
  match ← (onFollower number (Follower.reconcile block)).exclusively.attempt with
  | .ok _ => recordDelivery block none
  | .error error =>
      recordDelivery block (some error)
      .fail error

end ReorgSync.Simulation
