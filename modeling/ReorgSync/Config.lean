import ReorgSync.Filter

namespace ReorgSync

/-! Settings of one synchronisation, and the phases it goes through. Times are
in milliseconds. -/

structure Config where
  /-- The deepest reorganisation, in blocks, that is repaired in place, and the
  number of blocks next to the head that are fetched one by one. -/
  maxBlockBacklog : Nat := 10
  /-- The initial and largest span of one range query for logs. -/
  batchSize : Nat := 1000
  pollInterval : Nat := 2000
  /-- The first block to scan when the store is empty. -/
  startBlock : Option Nat := none
  /-- Attempts to fetch the logs of one block, and rounds of one
  synchronisation. -/
  retryAttempts : Nat := 5
  /-- Time between two such attempts. -/
  retryDelay : Nat := 500
  filter : Filter := {}
deriving DecidableEq, Repr

inductive Phase where
  | idle
  /-- Comparing the recorded identity of the chain with the node's. -/
  | preflight
  /-- Querying ranges of blocks far behind the head. -/
  | backfilling
  /-- Fetching the blocks next to the head one by one. -/
  | hotZone
  /-- Following the deltas of the head. -/
  | live
  | stopped
  | error
deriving DecidableEq, Repr

namespace Phase

/-- The word for a phase in messages for people. -/
def describe : Phase → String
  | .idle => "idle"
  | .preflight => "preflight"
  | .backfilling => "backfilling"
  | .hotZone => "hot-zone"
  | .live => "live"
  | .stopped => "stopped"
  | .error => "error"

def name : Phase → String
  | .idle => "Idle"
  | .preflight => "Preflight"
  | .backfilling => "Backfilling"
  | .hotZone => "HotZone"
  | .live => "Live"
  | .stopped => "Stopped"
  | .error => "Error"

def all : List Phase :=
  [.idle, .preflight, .backfilling, .hotZone, .live, .stopped, .error]

end Phase

/-! ## Settings made step by step -/

inductive Config.Setting where
  | maxBlockBacklog (blocks : Nat)
  | batchSize (blocks : Nat)
  | pollInterval (time : Nat)
  | startBlock (number : Nat)
  | retry (attempts delay : Nat)
  | filter (filter : Filter)
  | address (address : String)
  | topic (position : Nat) (value : String)
deriving DecidableEq, Repr

namespace Config

def set (config : Config) : Setting → Config
  | .maxBlockBacklog blocks => { config with maxBlockBacklog := blocks }
  | .batchSize blocks => { config with batchSize := blocks }
  | .pollInterval time => { config with pollInterval := time }
  | .startBlock number => { config with startBlock := some number }
  | .retry attempts delay => { config with retryAttempts := attempts, retryDelay := delay }
  | .filter filter => { config with filter }
  | .address address => { config with filter := config.filter.withAddress address }
  | .topic position value => { config with filter := config.filter.withTopic position value }

/-- The configuration that settings make of the default one, in order. -/
def ofSettings (settings : List Setting) : Config :=
  settings.foldl set {}

end Config

end ReorgSync
