import ReorgSync.Error

namespace ReorgSync

/-! A feed hands every item that is published to any number of readers. A
reader is only a position, the number of items that were published before the
next one it will see; so readers cannot disturb one another, and a slow reader
does not hold up the publisher. A bounded feed keeps only its newest items, and
a reader that lags further behind is told that it lost its place. -/

structure Feed (α : Type) where
  /-- How many items are kept; `none` keeps all of them. -/
  capacity : Option Nat := none
  /-- The items that are kept, newest first. -/
  recent : List α := []
  /-- How many items were published, kept or not. -/
  published : Nat := 0

namespace Feed

def unbounded : Feed α := {}

/-- A feed that keeps the newest items, and at least one. -/
def bounded (capacity : Nat) : Feed α :=
  { capacity := some (max capacity 1) }

def ofCapacity : Option Nat → Feed α
  | some capacity => bounded capacity
  | none => unbounded

def publish (feed : Feed α) (item : α) : Feed α :=
  let items := item :: feed.recent
  { feed with
    recent :=
      match feed.capacity with
      | some capacity => items.take capacity
      | none => items
    published := feed.published + 1 }

@[simp] theorem published_publish (feed : Feed α) (item : α) :
    (feed.publish item).published = feed.published + 1 := rfl

@[simp] theorem capacity_publish (feed : Feed α) (item : α) :
    (feed.publish item).capacity = feed.capacity := rfl

/-! ## Positions -/

/-- The position behind every item published so far. -/
def tail (feed : Feed α) : Nat :=
  feed.published

/-- The position in front of the items that a bounded feed keeps. An unbounded
feed starts its readers at the tail. -/
def backlog (feed : Feed α) : Nat :=
  match feed.capacity with
  | some capacity => feed.published - min feed.published capacity
  | none => feed.published

def lag (feed : Feed α) (position : Nat) : Nat :=
  feed.published - position

inductive Found (α : Type) where
  | item (value : α)
  | nothing
  /-- The next item is not kept any more. -/
  | lost
deriving DecidableEq, Repr

def find (feed : Feed α) (position : Nat) : Found α :=
  let unread := feed.lag position
  let isLost :=
    match feed.capacity with
    | some capacity => decide (capacity < unread)
    | none => false
  if isLost then .lost
  else if unread = 0 then .nothing
  else
    match feed.recent[unread - 1]? with
    | some item => .item item
    | none => .nothing

/-- What a reader gets that does not wait, and its position afterwards. Only an
item moves it. -/
def tryNext (feed : Feed α) (position : Nat) : Except SyncError (Option α) × Nat :=
  match feed.find position with
  | .item value => (.ok (some value), position + 1)
  | .nothing => (.ok none, position)
  | .lost => (.error .fellBehind, position)

/-- What a reader gets that would wait, but is canceled already. -/
def nextCanceled (feed : Feed α) (position : Nat) : Except SyncError α × Nat :=
  match feed.find position with
  | .item value => (.ok value, position + 1)
  | .nothing => (.error .canceled, position)
  | .lost => (.error .fellBehind, position)

/-- A reader one step behind the kept items has lost its place; at the last
kept item it has not. -/
example :
    let feed := ((bounded 2).publish 'a').publish 'b' |>.publish 'c'
    feed.find 0 = .lost ∧ feed.find 1 = .item 'b' ∧ feed.find 3 = .nothing := by
  decide

end Feed

end ReorgSync
