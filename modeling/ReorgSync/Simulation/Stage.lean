import ReorgSync.Heads.Source
import ReorgSync.Simulation.Progress

namespace ReorgSync.Simulation

/-! A stage is a scripted world with the actors in it. Its operations are the
steps of a scenario; each answers what can be seen of it. One follower and one
session are current, those that were made last. -/

structure Background where
  worker : Worker
  progress : Progress Unit

structure Stage where
  world : World
  actors : Actors
  nextWork : Nat := 1
  follower : Nat := 0
  session : Nat := 0
  /-- What indices of first blocks answer to each session. -/
  hints : List (Except NodeError (Option Nat)) := []
  /-- The current session's events that were looked at already. -/
  eventPosition : Nat := 0
  /-- Readers of deltas: a follower's number and a position. -/
  readers : List (Nat × Nat) := []
  background : Option Background := none

namespace Stage

def turns : Nat := 1000000

/-! ## Work -/

/-- Number a new piece of work, and make it the one that was started last. -/
def begin (stage : Stage) : Nat × Stage :=
  let work := stage.nextWork
  (work, { stage with nextWork := work + 1, world := { stage.world with current := work } })

/-- Let the background work go on as far as it can. -/
def turnBackground (stage : Stage) : Stage :=
  match stage.background with
  | none => stage
  | some background =>
      let (progress, actors, world) :=
        background.progress.resume background.worker stage.actors stage.world
      { stage with actors, world, background := some { background with progress } }

def backgroundDeadline? (stage : Stage) : Option Nat :=
  stage.background.bind fun background => background.progress.deadline?

def earlier? : Option Nat → Option Nat → Option Nat
  | some first, some second => some (min first second)
  | some first, none => some first
  | none, second => second

/-- Do a piece of work to its end. Whenever it waits, the background work has
its turn; when both wait, time passes until the first of them can go on. Of two
that can go on at one time, the work in the foreground is first. -/
def drive (worker : Worker) : (turns : Nat) → Progress α → Stage → Outcome α × Stage
  | 0, _, stage => (.halted .exhausted, stage)
  | turns + 1, progress, stage =>
      match progress with
      | .ended outcome => (outcome, stage)
      | _ =>
          match progress.wake? worker stage.world with
          | some (next, world) =>
              let (progress, actors, world) := advance worker next stage.actors world
              drive worker turns progress { stage with actors, world }
          | none =>
              let stage := stage.turnBackground
              match progress.wake? worker stage.world,
                  earlier? progress.deadline? stage.backgroundDeadline? with
              | none, some deadline =>
                  let clock := max stage.world.clock deadline
                  let stage := { stage with world := { stage.world with clock } }
                  drive worker turns progress
                    (if progress.deadline? = some deadline then stage else stage.turnBackground)
              | _, _ => drive worker turns progress stage

def finish (stage : Stage) (worker : Worker) (routine : Routine Actors α) : Outcome α × Stage :=
  drive worker turns (.ready routine) stage

/-- Do a piece of work that nobody cancels. -/
def perform (stage : Stage) (routine : Routine Actors α) : Outcome α × Stage :=
  stage.finish { work := 0, follower := stage.follower } routine

def act (stage : Stage) (action : Action) : Stage :=
  { stage with world := stage.world.act action }

/-! ## Followers -/

def currentFollower (stage : Stage) : Follower :=
  stage.actors.follower stage.follower

def addFollower (stage : Stage) (follower : Follower) : Stage :=
  { stage with
    follower := stage.actors.followers.length
    actors := { stage.actors with followers := stage.actors.followers ++ [follower] } }

def fill (stage : Stage) : Outcome Unit × Stage :=
  stage.perform (onFollower stage.follower Follower.fill).exclusively

def reconcile (stage : Stage) (block : Block) : Outcome (Option Delta) × Stage :=
  stage.perform (onFollower stage.follower (Follower.reconcile block)).exclusively

/-- The current follower, once no one else uses it. -/
def lookAtFollower (stage : Stage) : Outcome Follower × Stage :=
  stage.perform (onFollower stage.follower (Routine.get id)).exclusively

/-! ## Readers -/

def addReader (stage : Stage) (position : Nat) : Nat × Stage :=
  (stage.readers.length,
    { stage with readers := stage.readers ++ [(stage.follower, position)] })

def reader (stage : Stage) (number : Nat) : Nat × Nat :=
  stage.readers.getD number (0, 0)

/-- Everything that a reader of a feed finds without waiting, how the reading
ended, and the position after it. -/
def drainFeed (feed : Feed α) : (count position : Nat) → List α × Option SyncError × Nat
  | 0, position => ([], none, position)
  | count + 1, position =>
      match feed.find position with
      | .nothing => ([], none, position)
      | .lost => ([], some .fellBehind, position)
      | .item value =>
          let (items, ending, position) := drainFeed feed count (position + 1)
          (value :: items, ending, position)

/-- Read all that a reader finds. -/
def drain (stage : Stage) (number : Nat) :
    (Nat × List Delta × Option SyncError) × Stage :=
  let (follower, position) := stage.reader number
  let feed := (stage.actors.follower follower).deltas
  let lag := feed.lag position
  let (items, ending, position) := drainFeed feed (lag + 1) position
  ((lag, items, ending), { stage with readers := stage.readers.set number (follower, position) })

/-- Move a reader behind everything that was published, and answer its lag. -/
def flush (stage : Stage) (number : Nat) : Nat × Stage :=
  let (follower, _) := stage.reader number
  let feed := (stage.actors.follower follower).deltas
  (feed.lag feed.tail, { stage with readers := stage.readers.set number (follower, feed.tail) })

/-! ## Heads -/

/-- Who handles the blocks of a source. -/
inductive HandlerScript where
  | follower
  /-- An outcome for each block; then all are accepted. -/
  | outcomes (outcomes : List (Option SyncError))

def handler (stage : Stage) : HandlerScript → Block → Routine Actors Unit
  | .follower => followingHandler stage.follower
  | .outcomes _ => scriptedHandler

def prepareHandler (stage : Stage) (script : HandlerScript) : Stage :=
  let outcomes :=
    match script with
    | .follower => []
    | .outcomes outcomes => outcomes
  { stage with actors := { stage.actors with outcomes, delivered := [] } }

def trackPolls (stage : Stage) (script : HandlerScript) (period : Nat)
    (polls : List (List Action)) : Outcome Unit × Stage :=
  let work := stage.nextWork
  let stage := stage.prepareHandler script
  let stage := { stage with nextWork := work + 1, world := { stage.world with polls } }
  let worker : Worker := { work, follower := stage.follower, pollsByScript := true }
  stage.finish worker (Heads.poll (stage.handler script) period turns)

def trackNotifications (stage : Stage) (script : HandlerScript) (topic : String)
    (notifications : List Json) (closesSubscription : Bool)
    (subscribeError : Option NodeError) : Outcome Unit × Stage :=
  let stage := stage.prepareHandler script
  let stage := { stage with
    world := { stage.world with
      notifications, closesSubscription, subscribeError, topic := none } }
  stage.perform (Heads.listen (stage.handler script) topic turns)

/-! ## Sessions -/

def currentSession (stage : Stage) : SessionState :=
  stage.actors.sessionState stage.session

def currentEntry (stage : Stage) : StoredEntry AnyStore where
  store := stage.actors.store
  key := stage.currentSession.key

def addSession (stage : Stage) (config : Config)
    (hint : Option (Except NodeError (Option Nat))) (capacity : Option Nat)
    (sharesFollower : Bool) : Except SyncError Stage := do
  let stage :=
    if sharesFollower then stage
    else stage.addFollower (.make config.maxBlockBacklog config.retryDelay capacity)
  let store ← LogStore.openEntry stage.actors.store config.filter
  let session : SessionState :=
    { setup := { config, hasHints := hint.isSome }
      follower := stage.follower
      key := config.filter.fingerprint }
  return { stage with
    session := stage.actors.sessions.length
    hints := stage.hints ++ [hint.getD (.ok none)]
    eventPosition := 0
    actors := { stage.actors with store, sessions := stage.actors.sessions ++ [session] } }

def sessionWorker (stage : Stage) (work : Nat) : Worker where
  work
  follower := stage.currentSession.follower
  hint := stage.hints.getD stage.session (.ok none)

def sync (stage : Stage) (isCanceled : Bool) : Outcome Block × Stage :=
  let (work, stage) := stage.begin
  let stage :=
    if isCanceled then { stage with world := stage.world.cancelWork work } else stage
  stage.finish (stage.sessionWorker work)
    (onSession stage.session (Session.sync stage.currentSession.setup turns))

def takeEvents (stage : Stage) : List Event × Stage :=
  let feed := stage.currentSession.events
  let (events, _, eventPosition) :=
    drainFeed feed (feed.lag stage.eventPosition) stage.eventPosition
  (events, { stage with eventPosition })

/-! ## Background work -/

/-- Start to keep the current session's entry in step with the chain. It goes on
whenever the foreground waits. -/
def startRun (stage : Stage) : Stage :=
  let (work, stage) := stage.begin
  let routine := onSession stage.session (Session.run stage.currentSession.setup turns)
  { stage with
    background := some { worker := stage.sessionWorker work, progress := .ready routine } }

def settle (stage : Stage) (time : Nat) : Stage :=
  (stage.perform (Routine.pause time)).2

def stop (stage : Stage) (time : Nat) : Stage :=
  let stage :=
    match stage.background with
    | some background =>
        { stage with world := stage.world.cancelWork background.worker.work }
    | none => stage
  stage.settle time

def backgroundOutcome (stage : Stage) : Option (Outcome Unit) :=
  match stage.background with
  | some { progress := .ended outcome, .. } => some outcome
  | _ => none

/-! ## Names of blocks -/

/-- What a scenario calls a block. -/
inductive BlockPlace where
  | head
  | height (value : Nat)
  | hash (value : String)
  | block (value : Block)

def resolve (stage : Stage) : BlockPlace → Option Block
  | .head => stage.world.chain.head?
  | .height value => stage.world.chain.blockAt? value
  | .hash value => stage.world.chain.block? value
  | .block value => some value

end Stage

end ReorgSync.Simulation
