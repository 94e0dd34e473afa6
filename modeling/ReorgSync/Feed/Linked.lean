import ReorgSync.Feed

namespace ReorgSync

/-! A feed whose readers share nothing with the publisher but a chain of cells.
Every item has a cell with its number and a link to the cell behind it, and a
reader holds on to the cell that it read last; so readers are not known to the
publisher, and it never waits for them. A bounded feed keeps the cells of its
newest items and one more in front of them. Whatever leaves is cut off from the
cell behind it, so that a reader who stands still keeps only one item alive. -/

structure Cell (α : Type) where
  /-- How many items were published up to this one. -/
  number : Nat
  /-- A cell without an item only stands in front of others. -/
  item : Option α := none
  /-- The address of the cell behind it, if there is one and it is not cut off. -/
  next : Option Nat := none
deriving DecidableEq, Repr

structure LinkedFeed (α : Type) where
  capacity : Option Nat := none
  /-- All cells by their addresses; what no one holds on to is not taken away. -/
  cells : Array (Cell α) := #[{ number := 0 }]
  /-- The address of the newest cell. -/
  tail : Nat := 0
  /-- The addresses of the cells that a bounded feed keeps, oldest first: those of
  its newest items, and the last one from which a reader can still go on. -/
  kept : List Nat := []
  /-- The number of the oldest item that a bounded feed keeps for its readers. -/
  oldest : Nat := 0

namespace Feed.Found

/-- A reader that finds nothing goes on without an item. -/
def tried : Found α → Except SyncError (Option α)
  | .item value => .ok (some value)
  | .nothing => .ok none
  | .lost => .error .fellBehind

/-- A reader that finds nothing waits on. -/
def polled : Found α → Option (Except SyncError α)
  | .item value => some (.ok value)
  | .nothing => none
  | .lost => some (.error .fellBehind)

end Feed.Found

namespace LinkedFeed

def ofCapacity (capacity : Option Nat) : LinkedFeed α where
  capacity := capacity.map (max · 1)

/-! ## Cells -/

def number (feed : LinkedFeed α) (address : Nat) : Nat :=
  ((feed.cells[address]?).map Cell.number).getD 0

def next? (feed : LinkedFeed α) (address : Nat) : Option Nat :=
  (feed.cells[address]?).bind Cell.next

def item? (feed : LinkedFeed α) (address : Nat) : Option α :=
  (feed.cells[address]?).bind Cell.item

/-- How many items were published. -/
def published (feed : LinkedFeed α) : Nat :=
  feed.number feed.tail

/-- The address of the oldest item that a bounded feed keeps for its readers, once
there is one. -/
def first? (feed : LinkedFeed α) : Option Nat :=
  feed.capacity.bind fun capacity => feed.kept[feed.kept.length - capacity]?

def link (cells : Array (Cell α)) (address next : Nat) : Array (Cell α) :=
  cells.modify address fun cell => { cell with next := some next }

def cut (cells : Array (Cell α)) (address : Nat) : Array (Cell α) :=
  cells.modify address fun cell => { cell with next := none }

/-- Cut cells off from what is behind them. -/
def letGo (feed : LinkedFeed α) (addresses : List Nat) : LinkedFeed α :=
  { feed with cells := addresses.foldl cut feed.cells }

/-! ## Publishing -/

/-- Put a cell for an item behind the newest one. -/
def append (feed : LinkedFeed α) (item : α) : LinkedFeed α :=
  let address := feed.cells.size
  let number := feed.published + 1
  { feed with
    cells := (link feed.cells feed.tail address).push { number, item := some item }
    tail := address }

/-- Keep the newest cell too, and let go of those in front that are too many. What
is the oldest item now is known before any link is cut, so a reader that finds no
link also knows that it lost its place. -/
def keep (feed : LinkedFeed α) (capacity : Nat) : LinkedFeed α :=
  let feed := { feed with kept := feed.kept ++ [feed.tail] }
  let feed := { feed with oldest := (feed.first?.map feed.number).getD feed.oldest }
  let excess := feed.kept.length - (capacity + 1)
  { feed with kept := feed.kept.drop excess }.letGo (feed.kept.take excess)

def publish (feed : LinkedFeed α) (item : α) : LinkedFeed α :=
  let feed := feed.append item
  match feed.capacity with
  | some capacity => feed.keep capacity
  | none => feed

/-! ## Reading

A reader's place is the address of the cell that it read last. -/

/-- Put a cell without an item in front of another one; nothing links to it. -/
def front (feed : LinkedFeed α) (number next : Nat) : LinkedFeed α :=
  { feed with cells := feed.cells.push { number, next := some next } }

/-- A place in front of the items that a bounded feed keeps, once there is one. An
unbounded feed starts its readers at the tail. -/
def backlog (feed : LinkedFeed α) : Nat × LinkedFeed α :=
  match feed.first? with
  | some first => (feed.cells.size, feed.front (feed.number first - 1) first)
  | none => (feed.tail, feed)

def lag (feed : LinkedFeed α) (place : Nat) : Nat :=
  feed.published - feed.number place

/-- What is behind a place, and the place of a reader that has seen it. -/
def find (feed : LinkedFeed α) (place : Nat) : Feed.Found α × Nat :=
  if feed.capacity.isSome ∧ feed.number place + 1 < feed.oldest then (.lost, place)
  else
    match feed.next? place with
    | none => (.nothing, place)
    | some next =>
        match feed.item? next with
        | some item => (.item item, next)
        | none => (.nothing, next)

/-! What a reader gets, and its place afterwards. -/

/-- A reader that does not wait. -/
def tryNext (feed : LinkedFeed α) (place : Nat) : Except SyncError (Option α) × Nat :=
  ((feed.find place).1.tried, (feed.find place).2)

/-- A reader that waits, each time it looks; `none` if it has to wait on. -/
def poll (feed : LinkedFeed α) (place : Nat) : Option (Except SyncError α) × Nat :=
  ((feed.find place).1.polled, (feed.find place).2)

/-- A reader that would wait, but is canceled already. -/
def nextCanceled (feed : LinkedFeed α) (place : Nat) : Except SyncError α × Nat :=
  ((feed.poll place).1.getD (.error .canceled), (feed.poll place).2)

/-- Two items are kept and one more cell. The place at the start still links to the
first item, but the reader there has lost its place; the link of the second item is
still there, that of the first one is cut. -/
example :
    let feed := ['a', 'b', 'c', 'd'].foldl publish (ofCapacity (some 2))
    feed.kept.map feed.number = [2, 3, 4] ∧ feed.oldest = 3 ∧
      feed.next? 0 = some 1 ∧ feed.next? 1 = none ∧ feed.next? 2 = some 3 ∧
      feed.find 0 = (.lost, 0) ∧ feed.find 2 = (.item 'c', 3) := by
  decide

end LinkedFeed

end ReorgSync
