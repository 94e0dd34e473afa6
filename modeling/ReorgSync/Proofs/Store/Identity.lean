import ReorgSync.Proofs.Store.Table

namespace ReorgSync

/-! An entry keeps the identity of the chain that was recorded in it, whatever is stored
there afterwards. -/

/-- A store that keeps identities, in entries that it has opened and as far as they fit. -/
class IdentityStore (ε : Type) [EntryStore ε] where
  Accepts : ε → ChainIdentity → Prop
  apply_keeps : ∀ {entry after : ε} {event identity}, Accepts entry identity →
    EntryStore.apply entry event = .ok after →
      Accepts after identity ∧ EntryStore.identity after = EntryStore.identity entry
  record_keeps : ∀ {entry after : ε} {identity}, Accepts entry identity →
    EntryStore.record entry identity = .ok after →
      Accepts after identity ∧ EntryStore.identity after = .ok (some identity)

/-! ## Entries in memory -/

theorem Entry.identity_apply {entry after : Entry} {event : Event}
    (applied : entry.apply event = .ok after) : after.identity = entry.identity := by
  rw [(Entry.apply_eq_ok.mp applied).2]

instance : IdentityStore Entry where
  Accepts _ _ := True
  apply_keeps {entry _ event _} _ applied := by
    rw [Entry.apply_eq] at applied
    exact ⟨trivial, congrArg Except.ok (Entry.identity_apply applied)⟩
  record_keeps _ recorded := by
    cases recorded
    exact ⟨trivial, rfl⟩

/-! ## Entries of stores -/

instance : IdentityStore (StoredEntry MemoryStore) where
  Accepts _ _ := True
  apply_keeps := by
    intro entry after event identity _ applied
    rw [StoredEntry.apply_eq, MemoryStore.apply_eq] at applied
    rcases StoredEntry.exists_store applied with ⟨store, isChange, rfl⟩
    cases stored : (entry.store.entry entry.key).apply event with
    | error error =>
        rw [stored] at isChange
        cases isChange
    | ok changed =>
        rw [stored] at isChange
        cases isChange
        refine ⟨trivial, ?_⟩
        change Except.ok (MemoryStore.entry _ entry.key).identity = _
        rw [MemoryStore.entry_setEntry, Entry.identity_apply stored]
        rfl
  record_keeps := by
    intro entry after identity _ recorded
    cases recorded
    refine ⟨trivial, ?_⟩
    change Except.ok (MemoryStore.entry (entry.store.setEntry entry.key _) entry.key).identity = _
    rw [MemoryStore.entry_setEntry]

/-! ## Entries in tables -/

namespace TableStore

variable {table after : TableStore} {key : String}

/-- The identity that stands in a row. -/
def identityOf? (row : EntryRow) : Option ChainIdentity :=
  match row.chainId, row.genesisHash with
  | some chainId, some genesisHash => some ⟨ofColumn chainId, genesisHash⟩
  | _, _ => none

theorem identity_eq {row : EntryRow} (isRow : table.entryRow? key = some row)
    (isOpen : table.connected = .ok ()) :
    LogStore.identity table key = .ok (identityOf? row) := by
  simp only [LogStore.identity]
  rw [isOpen, isRow]
  rcases row with ⟨_, _, _, chainId?, genesisHash?⟩
  cases chainId? with
  | none => rfl
  | some chainId => cases genesisHash? <;> rfl

/-- An update changes the row of an entry in its place. -/
theorem entryRow?_updateEntry (table : TableStore) (key : String) (change : EntryRow → EntryRow)
    (keeps : ∀ row, (change row).fingerprint = row.fingerprint) :
    (table.updateEntry key change).entryRow? key = (table.entryRow? key).map change := by
  rw [entryRow?, entryRow?, updateEntry]
  dsimp only
  induction table.entries with
  | nil => rfl
  | cons row rest induction =>
      rw [List.map_cons, List.find?_cons, List.find?_cons]
      by_cases same : row.fingerprint = key
      · rw [if_pos same, keeps, beq_iff_eq.mpr same]
        rfl
      · have differs : (row.fingerprint == key) = false := by simpa using same
        rw [if_neg same, differs]
        exact induction

/-- A statement that succeeds found the connection open. -/
theorem connected_of_ok {statement : Except SyncError α} {value : α}
    (succeeds : (do
      table.connected
      statement) = Except.ok value) : table.connected = .ok () ∧ statement = .ok value := by
  cases isConnected : table.connected with
  | error error =>
      rw [isConnected] at succeeds
      cases succeeds
  | ok _ =>
      rw [isConnected] at succeeds
      exact ⟨rfl, succeeds⟩

/-- An event changes rows of logs, and one column in the row of its entry. -/
theorem exists_logs_of_apply {event : Event} (applied : LogStore.apply table key event = .ok after) :
    table.connected = .ok () ∧ ∃ logs, after = { table with logs }.updateEntry key fun row =>
      { row with lastBlockText := some event.block.encode.print } := by
  rcases of_apply_eq_ok applied with ⟨isConnected, -, -, -, rfl⟩
  refine ⟨isConnected, (table.withEvent key event).logs, ?_⟩
  rw [withEvent]
  cases event.truncateTo <;> rfl

theorem of_record_eq_ok {identity : ChainIdentity}
    (recorded : LogStore.record table key identity = .ok after) :
    table.connected = .ok () ∧ after = table.updateEntry key fun row =>
      { row with
        chainId := some (toColumn identity.chainId)
        genesisHash := some identity.genesisHash } := by
  rw [record_eq] at recorded
  rcases connected_of_ok recorded with ⟨isConnected, changes⟩
  exact ⟨isConnected, (Except.ok.inj changes).symm⟩

end TableStore

instance : IdentityStore (StoredEntry TableStore) where
  Accepts entry identity :=
    (entry.store.entryRow? entry.key).isSome ∧ identity.chainId < Word.size 64
  apply_keeps := by
    intro entry after event identity accepts applied
    rw [StoredEntry.apply_eq] at applied
    rcases StoredEntry.exists_store applied with ⟨store, isChange, rfl⟩
    rcases Option.isSome_iff_exists.mp accepts.1 with ⟨row, isRow⟩
    rcases TableStore.exists_logs_of_apply isChange with ⟨isOpen, logs, rfl⟩
    have changed := TableStore.entryRow?_updateEntry { entry.store with logs } entry.key
      (fun row => { row with lastBlockText := some event.block.encode.print }) fun _ => rfl
    change _ = (entry.store.entryRow? entry.key).map _ at changed
    rw [isRow] at changed
    refine ⟨⟨Option.isSome_iff_exists.mpr ⟨_, changed⟩, accepts.2⟩, ?_⟩
    exact (TableStore.identity_eq changed isOpen).trans (TableStore.identity_eq isRow isOpen).symm
  record_keeps := by
    intro entry after identity accepts recorded
    rw [StoredEntry.record_eq] at recorded
    rcases StoredEntry.exists_store recorded with ⟨store, isChange, rfl⟩
    rcases Option.isSome_iff_exists.mp accepts.1 with ⟨row, isRow⟩
    rcases TableStore.of_record_eq_ok isChange with ⟨isOpen, rfl⟩
    have changed := TableStore.entryRow?_updateEntry entry.store entry.key
      (fun row => { row with
        chainId := some (TableStore.toColumn identity.chainId)
        genesisHash := some identity.genesisHash }) fun _ => rfl
    rw [isRow] at changed
    refine ⟨⟨Option.isSome_iff_exists.mpr ⟨_, changed⟩, accepts.2⟩, ?_⟩
    refine (TableStore.identity_eq changed isOpen).trans ?_
    have readable := TableStore.ofColumn_toColumn accepts.2
    -- Left as it is, the column would be computed by `change`.
    generalize TableStore.toColumn identity.chainId = column at readable
    change Except.ok (some (ChainIdentity.mk (TableStore.ofColumn column) _)) = _
    rw [readable]

end ReorgSync
