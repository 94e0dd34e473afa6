import ReorgSync.Proofs.Store.Faithful
import ReorgSync.Proofs.Store.Transaction

namespace ReorgSync

/-! Two tables hold what a store in memory holds: every operation on an entry that was
opened answers the same, and leaves the same behind. -/

/-! ## Entries in memory -/

/-- Everything in an entry fits its columns. -/
structure Entry.InRange (entry : Entry) : Prop where
  logs : ∀ log ∈ entry.logs, log.InRange
  lastBlock : ∀ block ∈ entry.lastBlock, block.InRange
  identity : ∀ identity ∈ entry.identity, identity.chainId < Word.size 64

theorem Entry.inRange_empty : ({} : Entry).InRange where
  logs := nofun
  lastBlock := nofun
  identity := nofun

theorem Entry.InRange.apply {entry after : Entry} (inRange : entry.InRange) {event : Event}
    (added : event.InRange) (applied : entry.apply event = .ok after) : after.InRange := by
  rcases Entry.apply_eq_ok.mp applied with ⟨-, rfl⟩
  refine ⟨fun log isLog => ?_, ?_, inRange.identity⟩
  · rcases List.mem_append.mp isLog with old | isNew
    · exact inRange.logs log (Entry.mem_of_mem_left old)
    · exact added.added log isNew
  · rintro block ⟨⟩
    exact added.block

/-- Apply an event that leaves few enough logs. -/
def Entry.applyFew (entry : Entry) (event : Event) : Except SyncError Entry := do
  let after ← entry.apply event
  if after.logs.length < TableStore.columnLimit then return after
  else throw (.storage unspecified)

theorem Entry.applyFew_eq_ok {entry after : Entry} {event : Event} :
    entry.applyFew event = .ok after ↔
      entry.apply event = .ok after ∧ after.logs.length < TableStore.columnLimit := by
  rw [applyFew]
  cases applied : entry.apply event with
  | error error => exact ⟨nofun, fun few => nomatch few.1⟩
  | ok changed =>
      change (if _ then pure changed else throw _ : Except SyncError Entry) = _ ↔ _
      split
      case isTrue few =>
        constructor
        · rintro ⟨⟩
          exact ⟨rfl, few⟩
        · rintro ⟨⟨⟩, -⟩
          rfl
      case isFalse many =>
        refine ⟨nofun, ?_⟩
        rintro ⟨⟨⟩, few⟩
        exact absurd few many

namespace MemoryStore

theorem lookup_replace_ne {key other : String} (apart : other ≠ key) (entry : Entry)
    (entries : List (String × Entry)) :
    (replace key entry entries).lookup other = entries.lookup other := by
  induction entries with
  | nil => simp [replace, apart]
  | cons held rest induction =>
      rcases held with ⟨name, held⟩
      rw [replace]
      split
      case isTrue same =>
        have differs : (other == key) = false := by simpa using apart
        rw [same, List.lookup_cons, List.lookup_cons, differs]
      case isFalse => rw [List.lookup_cons, List.lookup_cons, induction]

@[simp] theorem entry_setEntry_ne {key other : String} (apart : other ≠ key) (store : MemoryStore)
    (entry : Entry) : (store.setEntry key entry).entry other = store.entry other := by
  rw [MemoryStore.entry, setEntry, lookup_replace_ne apart, MemoryStore.entry]

theorem lookup_setEntry (key : String) (entry : Entry) (store : MemoryStore) :
    (store.setEntry key entry).entries.lookup key = some entry :=
  lookup_replace key entry store.entries

/-- A key that has no entry yet comes last. -/
theorem replace_of_lookup_none {key : String} {entries : List (String × Entry)}
    (isNew : entries.lookup key = none) (entry : Entry) :
    replace key entry entries = entries ++ [(key, entry)] := by
  induction entries with
  | nil => rfl
  | cons held rest induction =>
      rcases held with ⟨name, held⟩
      rw [List.lookup_cons] at isNew
      cases same : key == name with
      | true => simp [same] at isNew
      | false =>
          rw [same] at isNew
          have differs : ¬ name = key := fun equal => by simp [equal] at same
          rw [replace, if_neg differs, induction isNew, List.cons_append]

theorem replace_self {key : String} {entry : Entry} {entries : List (String × Entry)}
    (held : entries.lookup key = some entry) : replace key entry entries = entries := by
  induction entries with
  | nil => cases held
  | cons first rest induction =>
      rcases first with ⟨name, first⟩
      rw [List.lookup_cons] at held
      rw [replace]
      cases same : key == name with
      | true =>
          rw [same] at held
          cases held
          rw [if_pos (beq_iff_eq.mp same).symm, beq_iff_eq.mp same]
      | false =>
          rw [same] at held
          have differs : ¬ name = key := fun equal => by simp [equal] at same
          rw [if_neg differs, induction held]

theorem keys_replace {key : String} {old : Entry} {entries : List (String × Entry)}
    (held : entries.lookup key = some old) (entry : Entry) :
    (replace key entry entries).map Prod.fst = entries.map Prod.fst := by
  induction entries with
  | nil => cases held
  | cons first rest induction =>
      rcases first with ⟨name, first⟩
      rw [List.lookup_cons] at held
      rw [replace]
      split
      case isTrue same => rw [List.map_cons, List.map_cons, same]
      case isFalse differs =>
        have apart : (key == name) = false := by
          simpa using fun same : key = name => differs same.symm
        rw [apart] at held
        rw [List.map_cons, List.map_cons, induction held]

end MemoryStore

/-! ## Rows of entries -/

/-- The row of an entry has its last block and its identity. -/
structure EntryRow.Shows (row : EntryRow) (held : String × Entry) : Prop where
  fingerprint : row.fingerprint = held.1
  lastBlock : row.lastBlockText = held.2.lastBlock.map (·.encode.print)
  chainId : row.chainId = held.2.identity.map (TableStore.toColumn ·.chainId)
  genesisHash : row.genesisHash = held.2.identity.map (·.genesisHash)

namespace TableStore

/-- The tables hold what the store in memory holds. -/
structure Shows (table : TableStore) (memory : MemoryStore) : Prop where
  isOpen : table.isOpen = true
  entries : List.Forall₂ EntryRow.Shows table.entries memory.entries
  distinct : (memory.entries.map Prod.fst).Nodup
  logs : ∀ key, table.logs.filter (·.fingerprint == key) = newRows key 0 (memory.entry key).logs

theorem shows_empty : ({} : TableStore).Shows {} where
  isOpen := rfl
  entries := .nil
  distinct := List.nodup_nil
  logs _ := rfl

variable {table : TableStore} {memory : MemoryStore} {key : String}

theorem Shows.connected (shown : table.Shows memory) : table.connected = .ok () := by
  rw [TableStore.connected, shown.isOpen]
  rfl

theorem record_of_connected (isConnected : table.connected = .ok ()) (identity : ChainIdentity) :
    LogStore.record table key identity =
      .ok (table.updateEntry key fun row =>
        { row with
          chainId := some (toColumn identity.chainId)
          genesisHash := some identity.genesisHash }) := by
  rw [record_eq, isConnected]
  rfl

/-- The row of a key, if the key has an entry. -/
theorem find?_shown {rows : List EntryRow} {entries : List (String × Entry)}
    (shown : List.Forall₂ EntryRow.Shows rows entries) (key : String) :
    (entries.lookup key = none ∧ rows.find? (·.fingerprint == key) = none) ∨
    ∃ entry row, entries.lookup key = some entry ∧
      rows.find? (·.fingerprint == key) = some row ∧ row.Shows (key, entry) := by
  induction shown with
  | nil => exact .inl ⟨rfl, rfl⟩
  | @cons row held rows entries first _ induction =>
      rcases held with ⟨name, entry⟩
      have name_eq : row.fingerprint = name := first.fingerprint
      rw [List.lookup_cons, List.find?_cons, name_eq]
      cases same : key == name with
      | true =>
          have isKey := beq_iff_eq.mp same
          rw [← isKey] at first
          exact .inr ⟨entry, row, rfl, by simp [isKey], first⟩
      | false =>
          have differs : (name == key) = false := by
            simpa using fun equal : name = key => by simp [equal] at same
          rw [differs]
          exact induction

theorem Shows.entryRow? (shown : table.Shows memory) (key : String) :
    (memory.entries.lookup key = none ∧ table.entryRow? key = none) ∨
    ∃ row, memory.entries.lookup key = some (memory.entry key) ∧
      table.entryRow? key = some row ∧ row.Shows (key, memory.entry key) := by
  rcases find?_shown shown.entries key with ⟨noEntry, noRow⟩ | ⟨entry, row, held, isRow, shows⟩
  · exact .inl ⟨noEntry, noRow⟩
  · have isEntry : memory.entry key = entry := by rw [MemoryStore.entry, held, Option.getD_some]
    rw [isEntry]
    exact .inr ⟨row, held, isRow, shows⟩

/-! ## Reading -/

theorem Shows.logCount (shown : table.Shows memory) :
    table.logCount key = (memory.entry key).logs.length := by
  rw [TableStore.logCount, shown.logs, length_newRows]

theorem Shows.count (shown : table.Shows memory) :
    LogStore.count table = LogStore.count memory := by
  simp only [LogStore.count]
  rw [shown.connected, shown.entries.length_eq]
  rfl

theorem Shows.lastIndex (shown : table.Shows memory) :
    LogStore.lastIndex table key = LogStore.lastIndex memory key := by
  simp only [LogStore.lastIndex, EntryStore.lastIndex]
  rw [shown.connected, shown.logCount]
  rfl

theorem Shows.log? (shown : table.Shows memory)
    (inRange : ∀ log ∈ (memory.entry key).logs, log.InRange)
    (small : (memory.entry key).logs.length < columnLimit) {index : Nat}
    (fits : index < Word.size 64) :
    LogStore.log? table key index = LogStore.log? memory key index := by
  have row : (table.logs.find? fun row => row.fingerprint == key && row.index == toColumn index) =
      ((memory.entry key).logs[index]?).map fun log => ⟨key, toColumn index, log.encode.print⟩ := by
    have bounded : 0 + (memory.entry key).logs.length < columnLimit := by omega
    have found := find?_newRows key bounded fits (Nat.zero_le index)
    rw [Nat.sub_zero, ← shown.logs key, List.find?_filter] at found
    rw [← found]
    congr 1
    funext row
    simp only [Bool.decide_and, Bool.decide_eq_true]
  simp only [LogStore.log?, EntryStore.log?]
  rw [shown.connected, row]
  cases isLog : (memory.entry key).logs[index]? with
  | none => rfl
  | some log =>
      have readable := readColumn_log (inRange log (List.mem_of_getElem? isLog))
      rw [Option.map_some]
      simp only [readable]
      rfl

theorem Shows.readLogs (shown : table.Shows memory)
    (inRange : ∀ log ∈ (memory.entry key).logs, log.InRange)
    (small : (memory.entry key).logs.length < columnLimit) :
    LogStore.logs table key = LogStore.logs memory key := by
  have rows : table.logRows key = newRows key 0 (memory.entry key).logs := by
    rw [logRows, shown.logs]
    apply List.mergeSort_of_pairwise
    refine (pairwise_newRows key (by omega)).imp ?_
    exact fun ordered => decide_eq_true ordered
  simp only [LogStore.logs, EntryStore.logs]
  rw [shown.connected, rows, readRows_newRows key 0 inRange]
  rfl

theorem Shows.lastBlock (shown : table.Shows memory)
    (inRange : ∀ block ∈ (memory.entry key).lastBlock, block.InRange) :
    LogStore.lastBlock table key = LogStore.lastBlock memory key := by
  simp only [LogStore.lastBlock, EntryStore.lastBlock]
  rw [shown.connected]
  rcases shown.entryRow? key with ⟨noEntry, noRow⟩ | ⟨row, -, isRow, shows⟩
  · rw [noRow, MemoryStore.entry, noEntry]
    rfl
  · rw [isRow, Option.bind_some, shows.lastBlock]
    cases isBlock : (memory.entry key).lastBlock with
    | none => rfl
    | some block =>
        have readable := readColumn_block (inRange block isBlock)
        rw [Option.map_some]
        simp only [readable]
        rfl

theorem Shows.identity (shown : table.Shows memory)
    (inRange : ∀ identity ∈ (memory.entry key).identity, identity.chainId < Word.size 64) :
    LogStore.identity table key = LogStore.identity memory key := by
  simp only [LogStore.identity, EntryStore.identity]
  rw [shown.connected]
  rcases shown.entryRow? key with ⟨noEntry, noRow⟩ | ⟨row, -, isRow, shows⟩
  · rw [noRow, MemoryStore.entry, noEntry]
    rfl
  · rw [isRow]
    dsimp only
    rw [shows.chainId, shows.genesisHash]
    cases isIdentity : (memory.entry key).identity with
    | none => rfl
    | some identity =>
        have readable := ofColumn_toColumn (inRange identity isIdentity)
        simp only [Option.map_some, readable]
        rfl

/-! ## Writing -/

theorem map_unchanged {rows : List EntryRow} {entries : List (String × Entry)}
    (shown : List.Forall₂ EntryRow.Shows rows entries) (noKey : key ∉ entries.map Prod.fst)
    (change : EntryRow → EntryRow) :
    rows.map (fun row => if row.fingerprint = key then change row else row) = rows := by
  induction shown with
  | nil => rfl
  | @cons row held rows entries first _ induction =>
      rw [List.map_cons, List.mem_cons, not_or] at noKey
      have differs : ¬ row.fingerprint = key := fun same => noKey.1 (same ▸ first.fingerprint)
      rw [List.map_cons, if_neg differs, induction noKey.2]

/-- A row that is changed shows the entry that is put in place of the old one. -/
theorem forall₂_replace {rows : List EntryRow} {entries : List (String × Entry)}
    (shown : List.Forall₂ EntryRow.Shows rows entries) (distinct : (entries.map Prod.fst).Nodup)
    {old new : Entry} (held : entries.lookup key = some old) {change : EntryRow → EntryRow}
    (changes : ∀ row : EntryRow, row.Shows (key, old) → (change row).Shows (key, new)) :
    List.Forall₂ EntryRow.Shows
      (rows.map fun row => if row.fingerprint = key then change row else row)
      (MemoryStore.replace key new entries) := by
  induction shown with
  | nil => cases held
  | @cons row first rows entries shows others induction =>
      rcases first with ⟨name, entry⟩
      have fingerprint : row.fingerprint = name := shows.fingerprint
      rw [List.map_cons, List.nodup_cons] at distinct
      rw [List.lookup_cons] at held
      rw [List.map_cons, MemoryStore.replace, fingerprint]
      by_cases same : name = key
      · subst same
        rw [beq_self_eq_true] at held
        cases held
        rw [if_pos rfl, if_pos rfl, map_unchanged others distinct.1]
        exact .cons (changes row shows) others
      · have apart : (key == name) = false := by
          simpa using fun equal : key = name => same equal.symm
        rw [apart] at held
        rw [if_neg same, if_neg same]
        exact .cons shows (induction distinct.2 held)

/-- The entry of a key and its logs change, and nothing else. -/
theorem Shows.setEntry (shown : table.Shows memory)
    (opened : memory.entries.lookup key = some (memory.entry key)) {new : Entry}
    {change : EntryRow → EntryRow}
    (changes : ∀ row : EntryRow, row.Shows (key, memory.entry key) → (change row).Shows (key, new))
    {logs : List LogRow} (own : logs.filter (·.fingerprint == key) = newRows key 0 new.logs)
    (others : ∀ other ≠ key, logs.filter (·.fingerprint == other) =
      table.logs.filter (·.fingerprint == other)) :
    ({ table with logs }.updateEntry key change).Shows (memory.setEntry key new) where
  isOpen := shown.isOpen
  entries := forall₂_replace shown.entries shown.distinct opened changes
  distinct := by
    change ((MemoryStore.replace key new memory.entries).map Prod.fst).Nodup
    rw [MemoryStore.keys_replace opened]
    exact shown.distinct
  logs other := by
    change logs.filter (·.fingerprint == other) = _
    by_cases same : other = key
    · rw [same, MemoryStore.entry_setEntry, own]
    · rw [MemoryStore.entry_setEntry_ne same, others other same, shown.logs]

/-- The rows that a cut leaves. -/
theorem Shows.rows_cut (shown : table.Shows memory)
    (small : (memory.entry key).logs.length < columnLimit) {length : Nat}
    (within : length ≤ (memory.entry key).logs.length) :
    (table.deleteFrom key length).logs.filter (·.fingerprint == key) =
      newRows key 0 ((memory.entry key).logs.take length) := by
  rw [← filter_newRows_below key small within, ← shown.logs key, deleteFrom]
  dsimp only
  rw [List.filter_filter, List.filter_filter]
  congr 1
  funext row
  cases row.fingerprint == key <;> simp

/-- What an event leaves in the row of its entry. -/
theorem shows_apply {row : EntryRow} {old : Entry} (shows : row.Shows (key, old)) (logs : List Log)
    (block : Block) :
    EntryRow.Shows { row with lastBlockText := some block.encode.print }
      (key, { old with logs, lastBlock := some block }) where
  fingerprint := shows.fingerprint
  lastBlock := rfl
  chainId := shows.chainId
  genesisHash := shows.genesisHash

/-- Behind a cut, the rows of an entry are those of the logs that it leaves. -/
theorem Shows.cut (shown : table.Shows memory)
    (small : (memory.entry key).logs.length < columnLimit) {truncateTo : Option Nat}
    (within : ∀ length ∈ truncateTo, length ≤ (memory.entry key).logs.length) :
    (table.cut key truncateTo).logs.filter (·.fingerprint == key) =
        newRows key 0 ((memory.entry key).left truncateTo) ∧
      ((memory.entry key).left truncateTo).length = table.nextIndex key truncateTo := by
  cases truncateTo with
  | none => exact ⟨shown.logs key, shown.logCount.symm⟩
  | some length =>
      have within := within length rfl
      exact ⟨shown.rows_cut small within, List.length_take_of_le within⟩

theorem cut_other (table : TableStore) {other : String} (apart : other ≠ key)
    (truncateTo : Option Nat) :
    (table.cut key truncateTo).logs.filter (·.fingerprint == other) =
      table.logs.filter (·.fingerprint == other) := by
  cases truncateTo with
  | none => rfl
  | some length =>
      rw [TableStore.cut, deleteFrom]
      dsimp only
      rw [List.filter_filter]
      congr 1
      funext row
      by_cases same : row.fingerprint = other
      · have differs : (row.fingerprint == key) = false := by simpa [same] using apart
        simp [differs]
      · simp [same]

/-- The tables after an event show the entry after it. -/
theorem Shows.withEvent (shown : table.Shows memory)
    (opened : memory.entries.lookup key = some (memory.entry key))
    (small : (memory.entry key).logs.length < columnLimit) {event : Event} {entry : Entry}
    (applied : (memory.entry key).apply event = .ok entry) :
    (table.withEvent key event).Shows (memory.setEntry key entry) := by
  rcases Entry.apply_eq_ok.mp applied with ⟨within, rfl⟩
  rcases shown.cut small within with ⟨rows, next⟩
  have isCut : table.cut key event.truncateTo =
      { table with logs := (table.cut key event.truncateTo).logs } := by
    cases event.truncateTo <;> rfl
  rw [TableStore.withEvent, isCut, ← next]
  refine shown.setEntry opened (fun row shows => shows_apply shows _ _) ?_ fun other apart => ?_
  · rw [List.filter_append, rows, filter_newRows_own, newRows_append, Nat.zero_add]
  · rw [List.filter_append, filter_newRows_other apart.symm, List.append_nil]
    exact cut_other table apart event.truncateTo

/-- An event that leaves few enough logs in memory is applied to the tables. -/
theorem Shows.apply_ok (shown : table.Shows memory)
    (opened : memory.entries.lookup key = some (memory.entry key))
    (small : (memory.entry key).logs.length < columnLimit) {event : Event} (inRange : event.InRange)
    {entry : Entry} (applied : (memory.entry key).applyFew event = .ok entry) :
    ∃ after, LogStore.apply table key event = .ok after ∧
      after.Shows (memory.setEntry key entry) := by
  rcases Entry.applyFew_eq_ok.mp applied with ⟨applied, few⟩
  refine ⟨table.withEvent key event, ?_, shown.withEvent opened small applied⟩
  rcases Entry.apply_eq_ok.mp applied with ⟨within, rfl⟩
  rcases shown.cut small within with ⟨rows, next⟩
  rw [List.length_append, next] at few
  refine apply_eq_ok.mpr ⟨shown.connected, inRange.block, ?_, _,
    Statements.run_insertLogs inRange.added (fun row isRow own => ?_) ?_ few, rfl⟩
  · rw [shown.logCount]
    exact within
  · have isOwn : row ∈ newRows key 0 ((memory.entry key).left event.truncateTo) := by
      rw [← rows]
      exact List.mem_filter.mpr ⟨isRow, beq_iff_eq.mpr own⟩
    rcases mem_newRows isOwn with ⟨-, place, -, below, isPlace⟩
    exact ⟨place, by omega, isPlace⟩
  · rw [TableStore.logCount, rows, length_newRows, next]

/-- An event that is applied to the tables is in range, and leaves few enough logs in memory. -/
theorem Shows.of_apply_ok (shown : table.Shows memory)
    (opened : memory.entries.lookup key = some (memory.entry key))
    (small : (memory.entry key).logs.length < columnLimit) {event : Event} {after : TableStore}
    (applied : LogStore.apply table key event = .ok after) :
    event.InRange ∧ ∃ entry, (memory.entry key).applyFew event = .ok entry ∧
      after.Shows (memory.setEntry key entry) := by
  rcases of_apply_eq_ok applied with ⟨-, inRange, within, room, rfl⟩
  rw [shown.logCount] at within
  have inMemory := Entry.apply_eq_ok.mpr ⟨within, rfl⟩
  refine ⟨inRange, _, Entry.applyFew_eq_ok.mpr ⟨inMemory, ?_⟩,
    shown.withEvent opened small inMemory⟩
  have left := (memory.entry key).length_left_le event.truncateTo
  rw [List.length_append]
  rcases room with none | room
  · rw [none, List.length_nil]
    omega
  · rw [TableStore.logCount, (shown.cut small within).1, length_newRows, rowLimit] at room
    rw [columnLimit] at small ⊢
    omega

/-- An event that cuts beyond the end is refused by the tables as it is in memory. -/
theorem Shows.apply_beyond (shown : table.Shows memory) {event : Event} {error : SyncError}
    (refused : (memory.entry key).apply event = .error error) :
    LogStore.apply table key event = .error error := by
  have truncated : (Statements.truncate key event.truncateTo).run
      { committed := table, pending := table } =
        .error error { committed := table, pending := table } := by
    rw [Entry.apply] at refused
    cases truncation : event.truncateTo with
    | none =>
        rw [truncation] at refused
        cases refused
    | some length =>
        simp only [truncation] at refused
        split at refused
        case isTrue beyond =>
          cases refused
          rw [run_truncate]
          dsimp only
          rw [shown.logCount, if_pos beyond]
        case isFalse => cases refused
  change (table.applyEvent key event).made = _
  rw [applyEvent, shown.connected]
  change (table.transact (.ofEvent key event)).made = _
  rw [made_transact, Statements.ofEvent, EStateM.run_bind, truncated]

/-- An event is refused by the tables for the same reason as in memory, or because it would
leave too many logs. -/
theorem Shows.apply_error (shown : table.Shows memory)
    (opened : memory.entries.lookup key = some (memory.entry key))
    (small : (memory.entry key).logs.length < columnLimit) {event : Event} {error : SyncError}
    (refused : (memory.entry key).applyFew event = .error error) :
    LogStore.apply table key event = .error error := by
  cases inMemory : (memory.entry key).apply event with
  | error cause =>
      rw [Entry.applyFew, inMemory] at refused
      cases refused
      exact shown.apply_beyond inMemory
  | ok entry =>
      cases inTables : LogStore.apply table key event with
      | ok after =>
          rcases shown.of_apply_ok opened small inTables with ⟨-, entry, applied, -⟩
          cases applied.symm.trans refused
      | error cause =>
          have within := (Entry.apply_eq_ok.mp inMemory).1
          rw [← shown.logCount] at within
          rw [apply_refused shown.connected within inTables]
          rw [Entry.applyFew, inMemory] at refused
          change (if _ then pure entry else throw _ : Except SyncError Entry) = _ at refused
          split at refused
          · cases refused
          · exact congrArg Except.error (Except.error.inj refused)

theorem Shows.record (shown : table.Shows memory)
    (opened : memory.entries.lookup key = some (memory.entry key)) (identity : ChainIdentity) :
    ∃ after, LogStore.record table key identity = .ok after ∧
      after.Shows (memory.setEntry key { memory.entry key with identity := some identity }) := by
  refine ⟨_, record_of_connected shown.connected identity,
    shown.setEntry opened ?_ (shown.logs key) fun _ _ => rfl⟩
  exact fun row shows => ⟨shows.fingerprint, shows.lastBlock, rfl, rfl⟩

/-- An entry that is opened is there, and all others stay. -/
theorem Shows.openEntry (shown : table.Shows memory) (filter : Filter) :
    ∃ after, LogStore.openEntry table filter = .ok after ∧
      after.Shows (memory.setEntry filter.fingerprint (memory.entry filter.fingerprint)) := by
  simp only [LogStore.openEntry]
  rw [shown.connected]
  generalize filter.fingerprint = key
  rcases shown.entryRow? key with ⟨noEntry, noRow⟩ | ⟨row, held, isRow, -⟩
  · rw [noRow]
    have isEmpty : memory.entry key = {} := by rw [MemoryStore.entry, noEntry, Option.getD_none]
    have added := MemoryStore.replace_of_lookup_none noEntry (memory.entry key)
    refine ⟨_, rfl, ⟨shown.isOpen, ?_, ?_, fun other => ?_⟩⟩
    · change List.Forall₂ EntryRow.Shows (table.entries ++ [_]) (MemoryStore.replace _ _ _)
      rw [added, isEmpty]
      exact List.rel_append shown.entries (.cons ⟨rfl, rfl, rfl, rfl⟩ .nil)
    · change ((MemoryStore.replace _ _ _).map Prod.fst).Nodup
      rw [added, List.map_append, List.nodup_append]
      refine ⟨shown.distinct, List.nodup_singleton _, ?_⟩
      rintro name isName other isOther rfl
      rcases List.mem_map.mp isName with ⟨held, isHeld, rfl⟩
      have same := List.lookup_eq_none_iff.mp noEntry held isHeld
      simp [List.mem_singleton.mp isOther] at same
    · change table.logs.filter _ = _
      rw [shown.logs]
      by_cases same : other = key
      · rw [same, MemoryStore.entry_setEntry]
      · rw [MemoryStore.entry_setEntry_ne same]
  · have unchanged : memory.setEntry key (memory.entry key) = memory :=
      congrArg MemoryStore.mk (MemoryStore.replace_self held)
    rw [isRow, unchanged]
    exact ⟨table, rfl, shown⟩

end TableStore

end ReorgSync
