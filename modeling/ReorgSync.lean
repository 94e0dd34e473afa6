import ReorgSync.Explorer
import ReorgSync.Simulation.Readers
import ReorgSync.Simulation.Stage
import ReorgSync.Proofs.Routine.Conduct
import ReorgSync.Proofs.Routine.Quietly
import ReorgSync.Proofs.Tree.Path
import ReorgSync.Proofs.Tree.Logs
import ReorgSync.Proofs.Tree.Conduct
import ReorgSync.Proofs.Window
import ReorgSync.Proofs.Follower
import ReorgSync.Proofs.Sync.Calls
import ReorgSync.Proofs.Sync.ByHash
import ReorgSync.Proofs.Follower.History
import ReorgSync.Proofs.Sync.LiveLoop
import ReorgSync.Proofs.Sync.Backfill
import ReorgSync.Proofs.Sync.Catchup
import ReorgSync.Proofs.Sync.Jobs
import ReorgSync.Proofs.Routine.Attains
import ReorgSync.Proofs.Still
import ReorgSync.Proofs.Follower.Deltas
import ReorgSync.Proofs.Follower.Repair
import ReorgSync.Proofs.Feed
import ReorgSync.Proofs.Feed.History
import ReorgSync.Proofs.Store.Faithful
import ReorgSync.Proofs.Sync.Journal
import ReorgSync.Proofs.Sync.ChangeLog
import ReorgSync.Proofs.Sync.Completion
import ReorgSync.Proofs.Sync.Lookup
import ReorgSync.Proofs.Sync.Course
import ReorgSync.Proofs.Sync.Complete
import ReorgSync.Proofs.Feed.Linked
import ReorgSync.Proofs.Feed.Readers
import ReorgSync.Proofs.Json.Lexical
import ReorgSync.Proofs.Json.Text
import ReorgSync.Proofs.Filter
import ReorgSync.Proofs.Codec.Fields
import ReorgSync.Proofs.Codec.Values
import ReorgSync.Proofs.Filter.Fingerprint
import ReorgSync.Proofs.Store.Rows
import ReorgSync.Proofs.Store.Table
import ReorgSync.Proofs.Store.Clients
import ReorgSync.Proofs.Routine.Writes
import ReorgSync.Proofs.Store.Identity
import ReorgSync.Proofs.Store.Opened
import ReorgSync.Proofs.Routine.Mirrors
import ReorgSync.Proofs.Sync.Mirrored
import ReorgSync.Proofs.Sync.Identity
import ReorgSync.Proofs.Sync.Preflight
import ReorgSync.Proofs.Sync.Team
import ReorgSync.Proofs.Rpc.LogFilter
import ReorgSync.Proofs.Sync.Phases
import ReorgSync.Proofs.Follower.Branches
import ReorgSync.Proofs.Sync.Start
import ReorgSync.Proofs.Sync.Hints
import ReorgSync.Proofs.Codec.Lossless
import ReorgSync.Proofs.Follower.Verdict
import ReorgSync.Proofs.Sync.Position
import ReorgSync.Proofs.Sync.Batches
import ReorgSync.Proofs.Routine.Loops
import ReorgSync.Proofs.Sync.Termination
import ReorgSync.Proofs.Sync.Tracking
import ReorgSync.Proofs.Sync.Transcript
import ReorgSync.Proofs.Sync.Tiling
import ReorgSync.Proofs.Sync.Descent
import ReorgSync.Proofs.Routine.Efforts
import ReorgSync.Proofs.Follower.Patience
import ReorgSync.Proofs.Follower.Failure
import ReorgSync.Proofs.Heads.Watched
import ReorgSync.Proofs.Heads.Contract
import ReorgSync.Proofs.Routine.LogCalls
import ReorgSync.Proofs.Sync.Faults
import ReorgSync.Proofs.Sync.Retries
import ReorgSync.Proofs.Sync.Figures
