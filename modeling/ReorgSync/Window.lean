import ReorgSync.Block
import ReorgSync.Error

namespace ReorgSync

/-! A window holds the newest blocks of a followed chain, oldest first, at most
as many as its capacity. Blocks are only ever added behind the newest one, and
only if they extend it. -/

structure Window where
  blocks : List Block := []
  capacity : Nat
deriving DecidableEq, Repr

namespace Window

/-- A window for so many blocks, and at least for one. -/
def empty (capacity : Nat) : Window where
  capacity := max capacity 1

def head? (window : Window) : Option Block :=
  window.blocks.getLast?

def oldest? (window : Window) : Option Block :=
  window.blocks.head?

/-- The blocks up to the newest one with a hash, and the blocks behind it. -/
def split? (hash : String) : List Block → Option (List Block × List Block)
  | [] => none
  | block :: rest =>
      match split? hash rest with
      | some (kept, newer) => some (block :: kept, newer)
      | none => if block.hash = hash then some ([block], rest) else none

/-- The newest block with a hash. -/
def find? (window : Window) (hash : String) : Option Block :=
  window.blocks.reverse.find? (·.hash == hash)

/-- Add a block behind the newest one. If the window is full, its oldest block
makes room. -/
def push (window : Window) (block : Block) : Except SyncError Window :=
  let added : Window :=
    { window with
      blocks :=
        (if window.capacity ≤ window.blocks.length then window.blocks.tail else window.blocks) ++
          [block] }
  match window.head? with
  | none => .ok added
  | some head =>
      if block.Extends head then .ok added
      else .error (.nonContiguous (head.number + 1) block.number)

/-- Add blocks one by one. -/
def pushAll (window : Window) : List Block → Except SyncError Window
  | [] => .ok window
  | block :: rest => do (← window.push block).pushAll rest

/-- Add blocks one by one as far as they can be added, and answer the error
that stopped it, if any. -/
def pushUntilError (window : Window) : List Block → Window × Option SyncError
  | [] => (window, none)
  | block :: rest =>
      match window.push block with
      | .ok window => window.pushUntilError rest
      | .error error => (window, some error)

end Window

end ReorgSync
