import ReorgSync.Feed.Linked

namespace ReorgSync.Simulation

/-! Readers of one feed, some of which wait for their next item. A waiting
reader is looked at only when someone starts or ends to wait. -/

inductive Reader (α : Type) where
  | reading (place : Nat)
  | waiting (place : Nat)
  /-- It waited, and got something. -/
  | served (result : Except SyncError α) (place : Nat)
  | dropped

namespace Reader

def place : Reader α → Nat
  | .reading place => place
  | .waiting place => place
  | .served _ place => place
  | .dropped => 0

/-- A waiting reader gets what is there for it. -/
def serve (feed : LinkedFeed α) : Reader α → Reader α
  | .waiting place =>
      match feed.poll place with
      | (some result, place) => .served result place
      | (none, place) => .waiting place
  | reader => reader

end Reader

/-- A feed and its readers, numbered from zero. -/
structure Readers (α : Type) where
  feed : LinkedFeed α
  members : List (Reader α) := []

namespace Readers

def ofCapacity (capacity : Option Nat) : Readers α where
  feed := .ofCapacity capacity

def publish (group : Readers α) (item : α) : Readers α :=
  { group with feed := group.feed.publish item }

def publishAll (group : Readers α) (items : List α) : Readers α :=
  items.foldl publish group

def add (group : Readers α) (place : Nat) : Nat × Readers α :=
  (group.members.length, { group with members := group.members ++ [.reading place] })

/-- A new reader, who sees what is published from now on. -/
def subscribe (group : Readers α) : Nat × Readers α :=
  group.add group.feed.tail

/-- A new reader, who sees what a bounded feed keeps before that. -/
def subscribeBacklog (group : Readers α) : Nat × Readers α :=
  let (place, feed) := group.feed.backlog
  { group with feed }.add place

def place (group : Readers α) (number : Nat) : Nat :=
  ((group.members[number]?).map Reader.place).getD 0

def setReader (group : Readers α) (number : Nat) (reader : Reader α) : Readers α :=
  { group with members := group.members.set number reader }

def tryNext (group : Readers α) (number : Nat) : Except SyncError (Option α) × Readers α :=
  let (result, place) := group.feed.tryNext (group.place number)
  (result, group.setReader number (.reading place))

/-- What a reader gets when it looks, if it does not have to wait on. -/
def poll (group : Readers α) (number : Nat) : Option (Except SyncError α) × Readers α :=
  let (result?, place) := group.feed.poll (group.place number)
  (result?, group.setReader number (.reading place))

/-- Read with a wait that is canceled already. -/
def nextCanceled (group : Readers α) (number : Nat) : Except SyncError α × Readers α :=
  let (result, place) := group.feed.nextCanceled (group.place number)
  (result, group.setReader number (.reading place))

def flush (group : Readers α) (number : Nat) : Readers α :=
  group.setReader number (.reading group.feed.tail)

def lag (group : Readers α) (number : Nat) : Nat :=
  group.feed.lag (group.place number)

/-! ## Waiting -/

def serveAll (group : Readers α) : Readers α :=
  { group with members := group.members.map (Reader.serve group.feed) }

def park (group : Readers α) (number : Nat) : Readers α :=
  (group.setReader number (.waiting (group.place number))).serveAll

/-- What a waiting reader got, if it got anything. It can read on after that. -/
def join (group : Readers α) (number : Nat) : Option (Except SyncError α) × Readers α :=
  let group := group.serveAll
  match group.members[number]? with
  | some (.served result place) => (some result, group.setReader number (.reading place))
  | _ => (none, group)

/-- What a waiting reader got until it is canceled. -/
def cancel (group : Readers α) (number : Nat) : Except SyncError α × Readers α :=
  match group.join number with
  | (some result, group) => (result, group)
  | (none, group) => (.error .canceled, group.setReader number (.reading (group.place number)))

end Readers

end ReorgSync.Simulation
