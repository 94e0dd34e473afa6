import ReorgSync.Feed
import ReorgSync.Routine
import ReorgSync.Window

namespace ReorgSync

/-! A follower keeps a window of the newest canonical blocks of a node. Given a
candidate for the head, it finds out how the candidate hangs together with the
window, replaces the blocks that a reorganisation displaced, and publishes the
change. -/

structure Follower where
  /-- The deepest reorganisation that is repaired, in blocks. -/
  backlog : Nat
  /-- Time between two questions for a parent that the node does not know. -/
  retryDelay : Nat := 500
  window : Window
  deltas : Feed Delta := .unbounded

namespace Follower

/-- A follower that saw nothing yet. It repairs at least one block. -/
def make (backlog : Nat) (retryDelay : Nat) (capacity : Option Nat) : Follower where
  backlog := max backlog 1
  retryDelay
  window := .empty (max backlog 1)
  deltas := .ofCapacity capacity

/-! ## Ancestors

The hash of a parent is known before the node may serve the parent. A missing
parent is asked for again after a pause; one walk has patience for a limited
number of such pauses, whichever parents they are spent on. -/

/-- The parent of a block, and the patience that is left. -/
def fetchParent (retryDelay : Nat) (child : Block) :
    (patience : Nat) → Routine Follower (Block × Nat)
  | 0 => do
      match ← Routine.node (.blockByHash child.parentHash false) with
      | some parent => return (parent, 0)
      | none => .fail (.blockNotFound child.parentHash)
  | patience + 1 => do
      match ← Routine.node (.blockByHash child.parentHash false) with
      | some parent => return (parent, patience + 1)
      | none =>
          .pause retryDelay
          fetchParent retryDelay child patience

/-- So many ancestors in front of a run of blocks, which is given as its oldest
block and the blocks behind it. -/
def fetchAncestors (retryDelay : Nat) :
    (count patience : Nat) → (oldest : Block) → (newer : List Block) →
    Routine Follower (List Block)
  | 0, _, oldest, newer => return oldest :: newer
  | count + 1, patience, oldest, newer => do
      let (parent, patience) ← fetchParent retryDelay oldest patience
      fetchAncestors retryDelay count patience parent (oldest :: newer)

/-! ## Filling the window -/

/-- Replace the window by blocks that end at the node's head: as many as the
window holds, or the whole chain if it is shorter. Nothing is published. -/
def fill : Routine Follower Unit := do
  let follower ← Routine.get id
  match ← Routine.node (.blockByTag .latest) with
  | none => .fail (.blockNotFound "latest")
  | some head =>
      let count := min follower.backlog (head.number + 1)
      let chain ← fetchAncestors follower.retryDelay (count - 1) follower.backlog head []
      let (window, error?) := { follower.window with blocks := [] }.pushUntilError chain
      Routine.modify fun follower => { follower with window }
      match error? with
      | some error => .fail error
      | none => return ()

/-! ## Reconciling a candidate -/

/-- How a candidate hangs together with the window: the blocks of the window
that stay, those that are displaced, and those that are added, all oldest
first. -/
structure Resolution where
  kept : List Block
  removed : List Block := []
  added : List Block
deriving DecidableEq, Repr

/-- Walk back from a candidate until a parent is in the window. The walk takes
at most as many steps as the deepest reorganisation that is repaired. -/
def link (follower : Follower) (height : Nat) :
    (steps patience : Nat) → (oldest : Block) → (newer : List Block) →
    Routine Follower Resolution
  | 0, _, _, _ => .fail (.reorgTooDeep height follower.backlog)
  | steps + 1, patience, oldest, newer => do
      let (parent, patience) ← fetchParent follower.retryDelay oldest patience
      match Window.split? parent.parentHash follower.window.blocks with
      | some (kept, removed) => return { kept, removed, added := parent :: oldest :: newer }
      | none => follower.link height steps patience parent (oldest :: newer)

/-- Find out how a candidate hangs together with the window. A candidate
directly behind a block of the window needs no question; one so far ahead that
it cannot be linked starts a new window. -/
def resolve (follower : Follower) (candidate : Block) : Routine Follower Resolution :=
  match follower.window.head? with
  | none => return { kept := [], added := [candidate] }
  | some head =>
      match Window.split? candidate.parentHash follower.window.blocks with
      | some (kept, removed) => return { kept, removed, added := [candidate] }
      | none =>
          if head.number + follower.backlog < candidate.number then do
            let count := follower.backlog - 1
            let added ←
              fetchAncestors follower.retryDelay count follower.backlog candidate []
            return { kept := [], added }
          else follower.link candidate.number follower.backlog follower.backlog candidate []

/-- Whether a candidate says nothing new: it is in the window already, or lies
below all of it. -/
def isStale (follower : Follower) (candidate : Block) : Bool :=
  (follower.window.find? candidate.hash).isSome ||
    match follower.window.oldest? with
    | some oldest => decide (candidate.number < oldest.number)
    | none => false

/-- Take a candidate into the window and publish the change. A candidate that
says nothing new changes nothing, and neither does a failure. -/
def reconcile (candidate : Block) : Routine Follower (Option Delta) := do
  let follower ← Routine.get id
  if follower.isStale candidate then return none
  else
    let resolution ← follower.resolve candidate
    let window ← Routine.ofExcept
      ({ follower.window with blocks := resolution.kept }.pushAll resolution.added)
    let delta : Delta := { added := resolution.added, removed := resolution.removed }
    Routine.modify fun follower =>
      { follower with window, deltas := follower.deltas.publish delta }
    return some delta

end Follower

end ReorgSync
