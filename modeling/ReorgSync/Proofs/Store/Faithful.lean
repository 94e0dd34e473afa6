import ReorgSync.Store.Memory

namespace ReorgSync

/-! What is kept in a store can also be kept by whoever reads the events that were
stored. -/

/-- What a reader of events keeps of an entry. -/
structure Ledger where
  logs : List Log := []
  lastBlock : Option Block := none
deriving DecidableEq, Repr

namespace Ledger

/-- Cut, append, and move to the block of an event. -/
def follow (ledger : Ledger) (event : Event) : Ledger where
  logs :=
    (match event.truncateTo with
      | none => ledger.logs
      | some length => ledger.logs.take length) ++ event.added
  lastBlock := some event.block

def followAll (ledger : Ledger) (events : List Event) : Ledger :=
  events.foldl follow ledger

theorem followAll_append (ledger : Ledger) (front back : List Event) :
    ledger.followAll (front ++ back) = (ledger.followAll front).followAll back :=
  List.foldl_append

@[simp] theorem followAll_concat (ledger : Ledger) (events : List Event) (event : Event) :
    ledger.followAll (events ++ [event]) = (ledger.followAll events).follow event :=
  followAll_append ledger events [event]

end Ledger

/-- The logs that an event lists as removed are those that its cut takes away, oldest
first. -/
def Event.IsExact (event : Event) (ledger : Ledger) : Prop :=
  match event.truncateTo with
  | none => event.removed = []
  | some length => length ≤ ledger.logs.length ∧ event.removed = ledger.logs.drop length

theorem Event.isExact_append (logs : List Log) (block : Block) (ledger : Ledger) :
    (Event.append logs block).IsExact ledger := rfl

/-- A store whose operations may fail, but do what they should where they succeed. -/
class FaithfulStore (ε : Type) [EntryStore ε] where
  ledger : ε → Ledger
  lastIndex_eq : ∀ {entry : ε} {count}, EntryStore.lastIndex entry = .ok count →
    count = (ledger entry).logs.length
  log?_eq : ∀ {entry : ε} {index log?}, index < (ledger entry).logs.length →
    EntryStore.log? entry index = .ok log? → log? = (ledger entry).logs[index]?
  ledger_apply : ∀ {entry after : ε} {event}, EntryStore.apply entry event = .ok after →
    ledger after = (ledger entry).follow event
  ledger_record : ∀ {entry after : ε} {identity}, EntryStore.record entry identity = .ok after →
    ledger after = ledger entry

/-- A faithful store that also reads back the block it ends at. -/
class RecallingStore (ε : Type) [EntryStore ε] extends FaithfulStore ε where
  lastBlock_eq : ∀ {entry : ε} {last?}, EntryStore.lastBlock entry = .ok last? →
    last? = (ledger entry).lastBlock

/-! ## Entries in memory -/

namespace Entry

variable {entry after : Entry} {event : Event}

/-- The logs that a cut leaves. -/
def left (entry : Entry) : Option Nat → List Log
  | none => entry.logs
  | some length => entry.logs.take length

theorem mem_of_mem_left {truncateTo : Option Nat} {log : Log} (isLeft : log ∈ entry.left truncateTo) :
    log ∈ entry.logs := by
  cases truncateTo with
  | none => exact isLeft
  | some length => exact List.mem_of_mem_take isLeft

theorem length_left_le (truncateTo : Option Nat) :
    (entry.left truncateTo).length ≤ entry.logs.length := by
  cases truncateTo with
  | none => exact Nat.le_refl _
  | some length => exact List.length_take_le' length entry.logs

/-- An event is applied unless it cuts beyond the end. -/
theorem apply_eq_ok : entry.apply event = .ok after ↔
    (∀ length ∈ event.truncateTo, length ≤ entry.logs.length) ∧
      after = { entry with
        logs := entry.left event.truncateTo ++ event.added
        lastBlock := some event.block } := by
  rw [apply]
  cases event.truncateTo with
  | none => exact ⟨fun applied => ⟨nofun, (Except.ok.inj applied).symm⟩, fun is => by rw [is.2, left]⟩
  | some length =>
      dsimp only
      split
      case isTrue beyond =>
        exact ⟨nofun, fun is => absurd beyond (Nat.not_lt.mpr (is.1 length rfl))⟩
      case isFalse within =>
        refine ⟨fun applied => ⟨?_, (Except.ok.inj applied).symm⟩, fun is => by rw [is.2, left]⟩
        rintro _ ⟨⟩
        exact Nat.not_lt.mp within

def ledger (entry : Entry) : Ledger where
  logs := entry.logs
  lastBlock := entry.lastBlock

theorem ledger_apply (applied : entry.apply event = .ok after) :
    after.ledger = entry.ledger.follow event := by
  rcases apply_eq_ok.mp applied with ⟨-, rfl⟩
  rw [ledger, Ledger.follow, ledger]
  cases event.truncateTo <;> rfl

end Entry

instance : FaithfulStore Entry where
  ledger := Entry.ledger
  lastIndex_eq found := (Except.ok.inj found).symm
  log?_eq _ found := (Except.ok.inj found).symm
  ledger_apply applied := Entry.ledger_apply ((Entry.apply_eq _ _).symm.trans applied)
  ledger_record found := by
    cases found
    rfl

instance : RecallingStore Entry where
  lastBlock_eq found := (Except.ok.inj found).symm

namespace MemoryStore

theorem lookup_replace (key : String) (entry : Entry) (entries : List (String × Entry)) :
    (replace key entry entries).lookup key = some entry := by
  induction entries with
  | nil => simp [replace]
  | cons held rest induction =>
      rcases held with ⟨other, held⟩
      rw [replace]
      split
      case isTrue same => rw [List.lookup_cons, beq_self_eq_true]
      case isFalse different =>
        have apart : (key == other) = false := by
          simpa using fun same : key = other => different same.symm
        rw [List.lookup_cons, apart]
        exact induction

@[simp] theorem entry_setEntry (store : MemoryStore) (key : String) (entry : Entry) :
    (store.setEntry key entry).entry key = entry := by
  rw [MemoryStore.entry, setEntry, lookup_replace, Option.getD_some]

end MemoryStore

/-- A change of an entry is a change of its store. -/
theorem StoredEntry.exists_store {σ : Type} {entry after : StoredEntry σ} {change : Except SyncError σ}
    (changed : change.map (StoredEntry.mk · entry.key) = .ok after) :
    ∃ store, change = .ok store ∧ after = { entry with store } := by
  cases change with
  | error error => cases changed
  | ok store => exact ⟨store, rfl, (Except.ok.inj changed).symm⟩

/-- An entry of a store in memory is as faithful as an entry alone. -/
instance : FaithfulStore (StoredEntry MemoryStore) where
  ledger entry := (entry.store.entry entry.key).ledger
  lastIndex_eq found := (Except.ok.inj found).symm
  log?_eq _ found := (Except.ok.inj found).symm
  ledger_apply := by
    intro entry after event applied
    rw [StoredEntry.apply_eq, MemoryStore.apply_eq] at applied
    rcases StoredEntry.exists_store applied with ⟨store, isStore, rfl⟩
    cases changed : (entry.store.entry entry.key).apply event with
    | error error =>
        rw [changed] at isStore
        cases isStore
    | ok stored =>
        rw [changed] at isStore
        cases isStore
        rw [MemoryStore.entry_setEntry]
        exact Entry.ledger_apply changed
  ledger_record := by
    intro entry after identity recorded
    cases recorded
    change (MemoryStore.entry (entry.store.setEntry entry.key _) entry.key).ledger = _
    rw [MemoryStore.entry_setEntry]
    rfl

instance : RecallingStore (StoredEntry MemoryStore) where
  lastBlock_eq found := (Except.ok.inj found).symm

end ReorgSync
