import ReorgSync.Proofs.Store.Identity

namespace ReorgSync

/-! An entry that was opened in tables can be read back, and stays so whatever is done to it.
It does what an entry in memory does, as long as its connection is open and its logs fit the
columns. -/

/-- Everything in an entry can be kept in tables and read back. -/
structure Entry.Fits (entry : Entry) : Prop extends Entry.InRange entry where
  few : entry.logs.length < TableStore.columnLimit

theorem Entry.Fits.event {entry after : Entry} (fits : after.Fits) {event : Event}
    (applied : entry.apply event = .ok after) : event.InRange := by
  rcases Entry.apply_eq_ok.mp applied with ⟨-, rfl⟩
  exact ⟨fun log isAdded => fits.logs log (List.mem_append_right _ isAdded), fits.lastBlock _ rfl⟩

/-- The identity that a signed column keeps. -/
def ChainIdentity.inColumns (identity : ChainIdentity) : ChainIdentity :=
  { identity with chainId := identity.chainId % Word.size 64 }

theorem ChainIdentity.inColumns_eq {identity : ChainIdentity}
    (inRange : identity.chainId < Word.size 64) : identity.inColumns = identity := by
  rw [inColumns, Nat.mod_eq_of_lt inRange]

namespace StoredEntry

/-- The tables hold an entry that was opened there, and it can be read back. -/
def Holds (stored : StoredEntry TableStore) (entry : Entry) : Prop :=
  entry.Fits ∧ ∃ memory : MemoryStore, stored.store.Shows memory ∧
    memory.entries.lookup stored.key = some (memory.entry stored.key) ∧
    memory.entry stored.key = entry

namespace Holds

variable {stored after : StoredEntry TableStore} {entry : Entry}

/-! ## Reading -/

theorem isOpen (holds : stored.Holds entry) : stored.store.isOpen = true := by
  rcases holds with ⟨-, memory, shown, -⟩
  exact shown.isOpen

theorem lastIndex (holds : stored.Holds entry) :
    EntryStore.lastIndex stored = .ok entry.logs.length := by
  rcases holds with ⟨-, memory, shown, -, rfl⟩
  exact shown.lastIndex

theorem log? (holds : stored.Holds entry) {index : Nat} (within : index < entry.logs.length) :
    EntryStore.log? stored index = .ok entry.logs[index]? := by
  rcases holds with ⟨fits, memory, shown, -, rfl⟩
  have bounds := TableStore.columnLimit_lt
  have few := fits.few
  exact shown.log? fits.logs few (by omega)

theorem logs (holds : stored.Holds entry) : EntryStore.logs stored = .ok entry.logs := by
  rcases holds with ⟨fits, memory, shown, -, rfl⟩
  exact shown.readLogs fits.logs fits.few

theorem lastBlock (holds : stored.Holds entry) :
    EntryStore.lastBlock stored = .ok entry.lastBlock := by
  rcases holds with ⟨fits, memory, shown, -, rfl⟩
  exact shown.lastBlock fits.lastBlock

theorem identity (holds : stored.Holds entry) :
    EntryStore.identity stored = .ok entry.identity := by
  rcases holds with ⟨fits, memory, shown, -, rfl⟩
  exact shown.identity fits.identity

/-! ## Writing -/

theorem apply (holds : stored.Holds entry) {event : Event} {next : Entry}
    (applied : entry.apply event = .ok next) (fits : next.Fits) :
    ∃ after, EntryStore.apply stored event = .ok after ∧ after.Holds next := by
  rcases holds with ⟨before, memory, shown, opened, rfl⟩
  rcases shown.apply_ok opened before.few (fits.event applied)
    (Entry.applyFew_eq_ok.mpr ⟨applied, fits.few⟩) with ⟨store, changed, shows⟩
  refine ⟨{ stored with store }, ?_, fits, _, shows, ?_, MemoryStore.entry_setEntry _ _ _⟩
  · rw [StoredEntry.apply_eq, changed]
    rfl
  · rw [MemoryStore.entry_setEntry]
    exact MemoryStore.lookup_setEntry _ _ _

theorem apply_error (holds : stored.Holds entry) {event : Event} {error : SyncError}
    (refused : entry.apply event = .error error) :
    EntryStore.apply stored event = .error error := by
  rcases holds with ⟨-, memory, shown, -, rfl⟩
  rw [StoredEntry.apply_eq, shown.apply_beyond refused]
  rfl

/-- Whatever is applied, it can be read back. -/
theorem of_apply (holds : stored.Holds entry) {event : Event}
    (applied : EntryStore.apply stored event = .ok after) :
    ∃ next, entry.apply event = .ok next ∧ after.Holds next := by
  rcases holds with ⟨before, memory, shown, opened, rfl⟩
  rw [StoredEntry.apply_eq] at applied
  rcases exists_store applied with ⟨store, changed, rfl⟩
  rcases shown.of_apply_ok opened before.few changed with ⟨inRange, next, applied, shows⟩
  rcases Entry.applyFew_eq_ok.mp applied with ⟨applied, few⟩
  refine ⟨next, applied, ⟨before.toInRange.apply inRange applied, few⟩, _, shows, ?_,
    MemoryStore.entry_setEntry _ _ _⟩
  rw [MemoryStore.entry_setEntry]
  exact MemoryStore.lookup_setEntry _ _ _

/-- An identity is recorded as far as the columns keep it. -/
theorem record (holds : stored.Holds entry) (identity : ChainIdentity) :
    ∃ after, EntryStore.record stored identity = .ok after ∧
      after.Holds { entry with identity := some identity.inColumns } := by
  rcases holds with ⟨before, memory, shown, opened, rfl⟩
  rcases shown.record opened identity.inColumns with ⟨store, changed, shows⟩
  have same : TableStore.toColumn identity.inColumns.chainId =
      TableStore.toColumn identity.chainId := TableStore.toColumn_mod identity.chainId
  have recorded : LogStore.record stored.store stored.key identity = .ok store := by
    rw [TableStore.record_of_connected shown.connected] at changed ⊢
    rw [← changed, same]
    rfl
  refine ⟨{ stored with store }, ?_, ⟨⟨before.logs, before.lastBlock, ?_⟩, before.few⟩, _, shows, ?_,
    MemoryStore.entry_setEntry _ _ _⟩
  · rw [StoredEntry.record_eq, recorded]
    rfl
  · rintro _ ⟨⟩
    exact Nat.mod_lt _ (by decide)
  · rw [MemoryStore.entry_setEntry]
    exact MemoryStore.lookup_setEntry _ _ _

end Holds

/-- The same entry over a connection that is open. -/
def reopened (stored : StoredEntry TableStore) : StoredEntry TableStore :=
  { stored with store := stored.store.reopen }

theorem reopened_eq {stored : StoredEntry TableStore} (isOpen : stored.store.isOpen = true) :
    stored.reopened = stored := by
  rcases stored with ⟨⟨entries, logs, isOpen?⟩, key⟩
  cases isOpen
  rfl

end StoredEntry

/-! ## Entries with what is known of them -/

/-- An entry that was opened in tables. Its connection may be closed since. -/
@[ext]
structure TableEntry where
  stored : StoredEntry TableStore
  isReadable : ∃ entry, stored.reopened.Holds entry

namespace TableEntry

variable {entry after : TableEntry} {event : Event}

def IsOpen (entry : TableEntry) : Prop :=
  entry.stored.store.isOpen = true

/-- What can be read back, over an open connection. -/
def shown (entry : TableEntry) : Entry where
  logs := (EntryStore.logs entry.stored.reopened).toOption.getD []
  lastBlock := (EntryStore.lastBlock entry.stored.reopened).toOption.getD none
  identity := (EntryStore.identity entry.stored.reopened).toOption.getD none

theorem shown_eq {held : Entry} (holds : entry.stored.reopened.Holds held) :
    entry.shown = held := by
  rw [shown, holds.logs, holds.lastBlock, holds.identity]
  rfl

theorem holds (isOpen : entry.IsOpen) : entry.stored.Holds entry.shown := by
  rcases entry.isReadable with ⟨held, holds⟩
  rw [shown_eq holds, ← StoredEntry.reopened_eq isOpen]
  exact holds

/-- What a stored entry holds can be read back. -/
def ofHolds {stored : StoredEntry TableStore} (holds : ∃ held, stored.Holds held) : TableEntry where
  stored
  isReadable := by
    rcases holds with ⟨held, holds⟩
    refine ⟨held, ?_⟩
    rw [StoredEntry.reopened_eq holds.isOpen]
    exact holds

/-! ### Changes -/

/-- A change after which everything can be read back. -/
def changed (entry : TableEntry) (change : Change (StoredEntry TableStore))
    (isWhole : change.IsWhole entry.stored)
    (made : ∀ after, change.made = .ok after → ∃ held, after.Holds held) : Change TableEntry where
  result := change.result
  after.stored := change.after
  after.isReadable := by
    rw [isWhole.eq_atOnce]
    cases isMade : change.made with
    | error error => exact entry.isReadable
    | ok after => exact (ofHolds (made after isMade)).isReadable

theorem isWhole_changed {change : Change (StoredEntry TableStore)}
    (isWhole : change.IsWhole entry.stored)
    (made : ∀ after, change.made = .ok after → ∃ held, after.Holds held) :
    (entry.changed change isWhole made).IsWhole entry :=
  fun error refused => TableEntry.ext (isWhole error refused)

theorem isOpen_of_connected (isConnected : entry.stored.store.connected = .ok ()) :
    entry.IsOpen := by
  rw [TableStore.connected] at isConnected
  split at isConnected
  case isTrue isOpen => exact isOpen
  case isFalse => cases isConnected

theorem isOpen_of_apply {after : StoredEntry TableStore}
    (applied : EntryStore.apply entry.stored event = .ok after) : entry.IsOpen := by
  rw [StoredEntry.apply_eq] at applied
  rcases StoredEntry.exists_store applied with ⟨store, changed, -⟩
  exact isOpen_of_connected (TableStore.of_apply_eq_ok changed).1

theorem isOpen_of_record {after : StoredEntry TableStore} {identity : ChainIdentity}
    (recorded : EntryStore.record entry.stored identity = .ok after) : entry.IsOpen := by
  rw [StoredEntry.record_eq] at recorded
  rcases StoredEntry.exists_store recorded with ⟨store, changed, -⟩
  exact isOpen_of_connected (TableStore.of_record_eq_ok changed).1

theorem exists_holds_apply {after : StoredEntry TableStore}
    (applied : EntryStore.apply entry.stored event = .ok after) : ∃ held, after.Holds held := by
  rcases (holds (isOpen_of_apply applied)).of_apply applied with ⟨next, -, holds⟩
  exact ⟨next, holds⟩

theorem exists_holds_record {after : StoredEntry TableStore} {identity : ChainIdentity}
    (recorded : EntryStore.record entry.stored identity = .ok after) :
    ∃ held, after.Holds held := by
  rcases (holds (isOpen_of_record recorded)).record identity with ⟨other, isOther, holds⟩
  cases isOther.symm.trans recorded
  exact ⟨_, holds⟩

instance : EntryStore TableEntry where
  lastIndex entry := EntryStore.lastIndex entry.stored
  log? entry := EntryStore.log? entry.stored
  logs entry := EntryStore.logs entry.stored
  lastBlock entry := EntryStore.lastBlock entry.stored
  identity entry := EntryStore.identity entry.stored
  tryApply entry event :=
    entry.changed (EntryStore.tryApply entry.stored event)
      (EntryStore.isWhole_tryApply entry.stored event) fun _ => exists_holds_apply
  tryRecord entry identity :=
    entry.changed (EntryStore.tryRecord entry.stored identity)
      (EntryStore.isWhole_tryRecord entry.stored identity) fun _ => exists_holds_record
  isWhole_tryApply _ _ := isWhole_changed _ _
  isWhole_tryRecord _ _ := isWhole_changed _ _

theorem map_stored_apply (entry : TableEntry) (event : Event) :
    (EntryStore.apply entry event).map TableEntry.stored = EntryStore.apply entry.stored event :=
  (Change.made_map TableEntry.stored (EntryStore.tryApply entry event)).symm

theorem map_stored_record (entry : TableEntry) (identity : ChainIdentity) :
    (EntryStore.record entry identity).map TableEntry.stored =
      EntryStore.record entry.stored identity :=
  (Change.made_map TableEntry.stored (EntryStore.tryRecord entry identity)).symm

/-- What is applied in tables is applied to what they show. -/
theorem shown_apply (applied : EntryStore.apply entry event = .ok after) :
    entry.IsOpen ∧ after.IsOpen ∧ entry.shown.apply event = .ok after.shown := by
  have stored : EntryStore.apply entry.stored event = .ok after.stored := by
    rw [← map_stored_apply, applied]
    rfl
  have isOpen := isOpen_of_apply stored
  rcases (holds isOpen).of_apply stored with ⟨next, applied, holdsNext⟩
  have isOpenThen : after.IsOpen := holdsNext.isOpen
  rw [← StoredEntry.reopened_eq isOpenThen] at holdsNext
  rw [shown_eq holdsNext]
  exact ⟨isOpen, isOpenThen, applied⟩

theorem shown_record {identity : ChainIdentity}
    (recorded : EntryStore.record entry identity = .ok after) :
    entry.IsOpen ∧ after.IsOpen ∧
      after.shown = { entry.shown with identity := some identity.inColumns } := by
  have stored : EntryStore.record entry.stored identity = .ok after.stored := by
    rw [← map_stored_record, recorded]
    rfl
  have isOpen := isOpen_of_record stored
  rcases (holds isOpen).record identity with ⟨other, isOther, holdsNext⟩
  cases isOther.symm.trans stored
  have isOpenThen : after.IsOpen := holdsNext.isOpen
  rw [← StoredEntry.reopened_eq isOpenThen] at holdsNext
  exact ⟨isOpen, isOpenThen, shown_eq holdsNext⟩

end TableEntry

/-- An entry that was opened in tables is as faithful as one in memory. Its operations fail
while its connection is closed, and where it has no room. -/
instance : FaithfulStore TableEntry where
  ledger entry := entry.shown.ledger
  lastIndex_eq {entry _} found := by
    have isOpen := TableEntry.isOpen_of_connected (TableStore.connected_of_ok found).1
    exact Except.ok.inj (found.symm.trans (TableEntry.holds isOpen).lastIndex)
  log?_eq {entry _ _} within found := by
    have isOpen := TableEntry.isOpen_of_connected (TableStore.connected_of_ok found).1
    exact Except.ok.inj (found.symm.trans ((TableEntry.holds isOpen).log? within))
  ledger_apply applied := Entry.ledger_apply (TableEntry.shown_apply applied).2.2
  ledger_record recorded := by
    rw [(TableEntry.shown_record recorded).2.2]
    rfl

instance : RecallingStore TableEntry where
  lastBlock_eq {entry _} found := by
    have isOpen := TableEntry.isOpen_of_connected (TableStore.connected_of_ok found).1
    exact Except.ok.inj (found.symm.trans (TableEntry.holds isOpen).lastBlock)

/-- What is opened in tables that show a store in memory can be read back. -/
theorem StoredEntry.holds_openEntry {table : TableStore} {memory : MemoryStore}
    (shown : table.Shows memory) (filter : Filter) (fits : (memory.entry filter.fingerprint).Fits) :
    ∃ store, LogStore.openEntry table filter = .ok store ∧
      (StoredEntry.mk store filter.fingerprint).Holds (memory.entry filter.fingerprint) := by
  rcases shown.openEntry filter with ⟨store, opened, shows⟩
  refine ⟨store, opened, fits, _, shows, ?_, MemoryStore.entry_setEntry _ _ _⟩
  rw [MemoryStore.entry_setEntry]
  exact MemoryStore.lookup_setEntry _ _ _

/-- New tables open the entry of any filter, and show it empty. -/
theorem TableEntry.exists_new (filter : Filter) :
    ∃ entry : TableEntry, LogStore.openEntry {} filter = .ok entry.stored.store ∧
      entry.stored.key = filter.fingerprint ∧ entry.IsOpen ∧ entry.shown = {} := by
  have fits : Entry.Fits {} := ⟨Entry.inRange_empty, by decide⟩
  rcases StoredEntry.holds_openEntry TableStore.shows_empty filter fits with
    ⟨store, opened, holds⟩
  refine ⟨ofHolds ⟨_, holds⟩, opened, rfl, holds.isOpen, ?_⟩
  rw [← StoredEntry.reopened_eq holds.isOpen] at holds
  exact shown_eq holds

/-! ## Entries that do as one in memory does -/

/-- A store that does what an entry in memory does, while it is open and as long as it has
room. -/
class MirroringStore (ε : Type) [EntryStore ε] where
  shown : ε → Entry
  IsOpen : ε → Prop
  HasRoom : Entry → Prop
  lastIndex_eq : ∀ {entry : ε}, IsOpen entry →
    EntryStore.lastIndex entry = .ok (shown entry).logs.length
  log?_eq : ∀ {entry : ε} {index}, IsOpen entry → index < (shown entry).logs.length →
    EntryStore.log? entry index = .ok (shown entry).logs[index]?
  lastBlock_eq : ∀ {entry : ε}, IsOpen entry →
    EntryStore.lastBlock entry = .ok (shown entry).lastBlock
  identity_eq : ∀ {entry : ε}, IsOpen entry →
    EntryStore.identity entry = .ok (shown entry).identity
  apply_eq : ∀ {entry : ε} {event next}, IsOpen entry → (shown entry).apply event = .ok next →
    HasRoom next →
      ∃ after, EntryStore.apply entry event = .ok after ∧ IsOpen after ∧ shown after = next
  apply_error : ∀ {entry : ε} {event error}, IsOpen entry →
    (shown entry).apply event = .error error → EntryStore.apply entry event = .error error
  record_eq : ∀ {entry : ε} {identity}, IsOpen entry →
    HasRoom { shown entry with identity := some identity } →
      ∃ after, EntryStore.record entry identity = .ok after ∧ IsOpen after ∧
        shown after = { shown entry with identity := some identity }

instance : MirroringStore (StoredEntry MemoryStore) where
  shown entry := entry.store.entry entry.key
  IsOpen _ := True
  HasRoom _ := True
  lastIndex_eq _ := rfl
  log?_eq _ _ := rfl
  lastBlock_eq _ := rfl
  identity_eq _ := rfl
  apply_eq {entry event next} _ applied _ := by
    refine ⟨{ entry with store := entry.store.setEntry entry.key next }, ?_, trivial,
      MemoryStore.entry_setEntry _ _ _⟩
    rw [StoredEntry.apply_eq, MemoryStore.apply_eq, applied]
    rfl
  apply_error _ refused := by
    rw [StoredEntry.apply_eq, MemoryStore.apply_eq, refused]
    rfl
  record_eq {entry identity} _ _ :=
    ⟨{ entry with store := entry.store.setEntry entry.key _ }, rfl, trivial,
      MemoryStore.entry_setEntry _ _ _⟩

namespace TableEntry

variable {entry : TableEntry}

theorem apply_of_shown (isOpen : entry.IsOpen) {event : Event} {next : Entry}
    (applied : entry.shown.apply event = .ok next) (fits : next.Fits) :
    ∃ after, EntryStore.apply entry event = .ok after ∧ after.IsOpen ∧ after.shown = next := by
  rcases (holds isOpen).apply applied fits with ⟨stored, changed, -⟩
  rw [← map_stored_apply] at changed
  cases isChange : EntryStore.apply entry event with
  | error error =>
      rw [isChange] at changed
      cases changed
  | ok after =>
      rcases shown_apply isChange with ⟨-, isOpenThen, shown⟩
      exact ⟨after, rfl, isOpenThen, Except.ok.inj (shown.symm.trans applied)⟩

theorem apply_error (isOpen : entry.IsOpen) {event : Event} {error : SyncError}
    (refused : entry.shown.apply event = .error error) :
    EntryStore.apply entry event = .error error := by
  have inTables := (holds isOpen).apply_error refused
  rw [← map_stored_apply] at inTables
  cases isChange : EntryStore.apply entry event with
  | ok after =>
      rw [isChange] at inTables
      cases inTables
  | error cause =>
      rw [isChange] at inTables
      cases inTables
      rfl

theorem exists_record (isOpen : entry.IsOpen) (identity : ChainIdentity) :
    ∃ after, EntryStore.record entry identity = .ok after ∧ after.IsOpen ∧
      after.shown = { entry.shown with identity := some identity.inColumns } := by
  rcases (holds isOpen).record identity with ⟨stored, changed, -⟩
  rw [← map_stored_record] at changed
  cases isChange : EntryStore.record entry identity with
  | error error =>
      rw [isChange] at changed
      cases changed
  | ok after => exact ⟨after, rfl, (shown_record isChange).2⟩

end TableEntry

instance : MirroringStore TableEntry where
  shown := TableEntry.shown
  IsOpen := TableEntry.IsOpen
  HasRoom := Entry.Fits
  lastIndex_eq isOpen := (TableEntry.holds isOpen).lastIndex
  log?_eq isOpen within := (TableEntry.holds isOpen).log? within
  lastBlock_eq isOpen := (TableEntry.holds isOpen).lastBlock
  identity_eq isOpen := (TableEntry.holds isOpen).identity
  apply_eq isOpen applied fits := TableEntry.apply_of_shown isOpen applied fits
  apply_error isOpen refused := TableEntry.apply_error isOpen refused
  record_eq {_ identity} isOpen fits := by
    have recorded := TableEntry.exists_record isOpen identity
    rw [ChainIdentity.inColumns_eq (fits.identity identity rfl)] at recorded
    exact recorded

end ReorgSync
