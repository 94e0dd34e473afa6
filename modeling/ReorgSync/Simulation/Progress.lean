import ReorgSync.Simulation.Actors
import ReorgSync.Simulation.World

namespace ReorgSync.Simulation

/-! Work in a scripted world. Work goes on until it has to wait, and can be
taken up again when what it waits for has come. -/

/-- Who works: the number of the work, by which it can be canceled, the follower
it uses, and what is special about its surroundings. -/
structure Worker where
  work : Nat
  follower : Nat
  /-- Whether polls of the head follow the script for polls. -/
  pollsByScript : Bool := false
  /-- What an index of first blocks answers. -/
  hint : Except NodeError (Option Nat) := .ok none

/-- Work that was started, as far as it got. -/
inductive Progress (α : Type) where
  | ended (outcome : Outcome α)
  | ready (next : Routine Actors α)
  /-- It waits until a time, whatever happens. -/
  | paused (deadline : Nat) (next : Routine Actors α)
  /-- It waits until a time or for cancellation. -/
  | waiting (deadline : Nat) (next : Bool → Routine Actors α)
  /-- It waits for something to be published, or for cancellation. -/
  | idling (next : Bool → Routine Actors α)
  | queued (next : Routine Actors α)
  /-- It waits for its follower or for cancellation. -/
  | queuedCancelable (next : Bool → Routine Actors α)

/-- Let work go on until it ends or has to wait. Waiting for no time at all is
never interrupted. -/
def advance (worker : Worker) :
    Routine Actors α → Actors → World → Progress α × Actors × World
  | .done value, actors, world => (.ended (.value value), actors, world)
  | .fail error, actors, world => (.ended (.error error), actors, world)
  | .halted cause, actors, world => (.ended (.halted cause), actors, world)
  | .read next, actors, world => advance worker (next actors) actors world
  | .write actors next, _, world => advance worker next actors world
  | .ask (.node call) next, actors, world =>
      let (reply, world) := world.call call
      advance worker (next reply) actors world
  | .ask (.cancelableNode call) next, actors, world =>
      let (reply, world) := world.cancelableCall worker.work worker.pollsByScript call
      advance worker (next reply) actors world
  | .ask (.hint _) next, actors, world =>
      advance worker (next (some worker.hint)) actors world
  | .ask .isCanceled next, actors, world =>
      advance worker (next (world.isCanceled worker.work)) actors world
  | .ask (.pause time) next, actors, world =>
      if time = 0 then advance worker (next ()) actors world
      else (.paused (world.clock + time) (next ()), actors, world)
  | .ask (.wait time) next, actors, world =>
      if time = 0 then advance worker (next false) actors world
      else if world.isCanceled worker.work then advance worker (next true) actors world
      else (.waiting (world.clock + time) next, actors, world)
  | .ask .idle next, actors, world =>
      if world.isCanceled worker.work then advance worker (next true) actors world
      else (.idling next, actors, world)
  | .ask .now next, actors, world => advance worker (next world.clock) actors world
  | .ask (.subscribe topic) next, actors, world =>
      let (reply, world) := world.subscribe topic
      advance worker (next (some reply)) actors world
  | .ask .arrival next, actors, world =>
      let (arrival, world) := world.nextArrival
      advance worker (next arrival) actors world
  | .ask .acquire next, actors, world =>
      let world := world.acquire worker.follower worker.work
      if world.holds worker.follower worker.work then advance worker (next ()) actors world
      else (.queued (next ()), actors, world)
  | .ask .acquireCancelable next, actors, world =>
      let world := world.acquire worker.follower worker.work
      if world.holds worker.follower worker.work then advance worker (next false) actors world
      else (.queuedCancelable next, actors, world)
  | .ask .release next, actors, world =>
      advance worker (next ()) actors (world.release worker.follower worker.work)

namespace Progress

/-- How work goes on, if what it waited for has come. Work that waits for
something to be published looks for itself. -/
def wake? (worker : Worker) (world : World) :
    Progress α → Option (Routine Actors α × World)
  | .ended _ => none
  | .ready next => some (next, world)
  | .paused deadline next => if deadline ≤ world.clock then some (next, world) else none
  | .waiting deadline next =>
      if world.isCanceled worker.work then some (next true, world)
      else if deadline ≤ world.clock then some (next false, world)
      else none
  | .idling next => some (next false, world)
  | .queued next =>
      if world.holds worker.follower worker.work then some (next, world) else none
  | .queuedCancelable next =>
      if world.isCanceled worker.work then
        some (next true, world.giveUp worker.follower worker.work)
      else if world.holds worker.follower worker.work then some (next false, world)
      else none

def deadline? : Progress α → Option Nat
  | .paused deadline _ => some deadline
  | .waiting deadline _ => some deadline
  | _ => none

/-- Take work up again if it can go on. -/
def resume (worker : Worker) (progress : Progress α) (actors : Actors) (world : World) :
    Progress α × Actors × World :=
  match progress.wake? worker world with
  | some (next, world) => advance worker next actors world
  | none => (progress, actors, world)

end Progress

end ReorgSync.Simulation
