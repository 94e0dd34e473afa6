import Mathlib.Data.List.Infix
import ReorgSync.Proofs.Store.Table

namespace ReorgSync

/-! What clients of a store see: they open entries, call them by the handles that they got,
and may close the store and open it again. Tables cannot be told from a store in memory. -/

/-! ## Calls -/

/-- What can be asked of an entry. -/
inductive EntryCall where
  | lastIndex
  | log? (index : Nat)
  | logs
  /-- All logs, one by one. -/
  | logsByIndex
  | lastBlock
  | identity
  | apply (event : Event)
  | record (identity : ChainIdentity)
deriving DecidableEq, Repr

inductive EntryAnswer where
  | count (result : Except SyncError Nat)
  | log (result : Except SyncError (Option Log))
  | logs (result : Except SyncError (List Log))
  | block (result : Except SyncError (Option Block))
  | identity (result : Except SyncError (Option ChainIdentity))
  | done (result : Except SyncError Unit)

namespace EntryCall

/-- What a client sees of a change, and what it leaves behind. -/
def settle (change : Change ε) : EntryAnswer × ε :=
  (.done change.result, change.after)

def perform [EntryStore ε] (entry : ε) : EntryCall → EntryAnswer × ε
  | .lastIndex => (.count (EntryStore.lastIndex entry), entry)
  | .log? index => (.log (EntryStore.log? entry index), entry)
  | .logs => (.logs (EntryStore.logs entry), entry)
  | .logsByIndex => (.logs (EntryStore.logsByIndex entry), entry)
  | .lastBlock => (.block (EntryStore.lastBlock entry), entry)
  | .identity => (.identity (EntryStore.identity entry), entry)
  | .apply event => settle (EntryStore.tryApply entry event)
  | .record known => settle (EntryStore.tryRecord entry known)

/-- All numbers of a call fit a word of 64 bits. -/
def InRange : EntryCall → Prop
  | .log? index => index < Word.size 64
  | .apply event => event.InRange
  | .record known => known.chainId < Word.size 64
  | _ => True

end EntryCall

/-! ## Clients -/

inductive StoreStep where
  | openEntry (filter : Filter)
  /-- Close the store and open it again; the handles are gone then. -/
  | restart
  | count
  | call (handle : Nat) (call : EntryCall)
deriving DecidableEq, Repr

inductive StoreAnswer where
  /-- The handle of an entry that was opened. -/
  | opened (handle : Except SyncError Nat)
  | restarted
  | count (result : Except SyncError Nat)
  | entry (answer : EntryAnswer)
  | noHandle

/-- A store, and the keys of the entries that were opened in it. -/
structure Client (σ : Type) where
  store : σ
  handles : List String := []

namespace Client

/-- A step of a client, where `restart` closes a store and opens it again. -/
def perform [LogStore σ] (restart : σ → σ) (client : Client σ) :
    StoreStep → StoreAnswer × Client σ
  | .openEntry filter =>
      match LogStore.openEntry client.store filter with
      | .ok store =>
          (.opened (.ok client.handles.length),
            { store, handles := client.handles ++ [filter.fingerprint] })
      | .error error => (.opened (.error error), client)
  | .restart => (.restarted, { store := restart client.store })
  | .count => (.count (LogStore.count client.store), client)
  | .call handle call =>
      match client.handles[handle]? with
      | some key =>
          let (answer, entry) := call.perform (StoredEntry.mk client.store key)
          (.entry answer, { client with store := entry.store })
      | none => (.noHandle, client)

/-- One step after the other, with the answers. -/
def performAll [LogStore σ] (restart : σ → σ) (client : Client σ) :
    List StoreStep → List StoreAnswer × Client σ
  | [] => ([], client)
  | step :: rest =>
      let (answer, client) := client.perform restart step
      let (answers, client) := client.performAll restart rest
      (answer :: answers, client)

/-- What clients of new tables see. -/
def onTables (steps : List StoreStep) : List StoreAnswer × Client TableStore :=
  performAll (fun store => store.close.reopen) { store := {} } steps

/-- What clients of a new store in memory see, which cannot be closed. -/
def inMemory (steps : List StoreStep) : List StoreAnswer × Client MemoryStore :=
  performAll id { store := {} } steps

end Client

def StoreStep.InRange : StoreStep → Prop
  | .call _ asked => asked.InRange
  | _ => True

/-- Every entry has few enough logs. -/
def MemoryStore.IsSmall (store : MemoryStore) : Prop :=
  ∀ held ∈ store.entries, held.2.logs.length < TableStore.columnLimit

instance (store : MemoryStore) : Decidable store.IsSmall :=
  inferInstanceAs (Decidable (∀ held ∈ store.entries, _))

/-! ## Logs one by one -/

/-- Logs that are read one by one are all logs there are. -/
theorem EntryStore.logsFrom_eq {ε : Type} [EntryStore ε] {entry : ε} {logs : List Log}
    (reads : ∀ index < logs.length, EntryStore.log? entry index = .ok logs[index]?)
    {count index : Nat} (ends : index + count = logs.length) :
    logsFrom entry count index = .ok (logs.drop index) := by
  induction count generalizing index with
  | zero =>
      rw [List.drop_of_length_le (by omega)]
      rfl
  | succ count induction =>
      have within : index < logs.length := by omega
      rw [logsFrom, reads index within, induction (by omega), List.getElem?_eq_getElem within,
        List.drop_eq_getElem_cons within]
      rfl

theorem EntryStore.logsByIndex_eq {ε : Type} [EntryStore ε] {entry : ε} {logs : List Log}
    (counted : EntryStore.lastIndex entry = .ok logs.length)
    (reads : ∀ index < logs.length, EntryStore.log? entry index = .ok logs[index]?) :
    logsByIndex entry = .ok logs := by
  rw [logsByIndex, counted]
  change logsFrom entry logs.length 0 = _
  rw [EntryStore.logsFrom_eq reads (Nat.zero_add _), List.drop_zero]

/-! ## Calls of a store in memory -/

namespace EntryCall

variable {memory : MemoryStore} {table : TableStore} {key : String}

/-- A change of an entry is a change of its store. -/
theorem perform_apply [LogStore σ] (store : σ) (key : String) (event : Event) :
    (apply event).perform (StoredEntry.mk store key) =
      match LogStore.apply store key event with
      | .ok after => (.done (.ok ()), ⟨after, key⟩)
      | .error error => (.done (.error error), ⟨store, key⟩) := by
  have isWhole := EntryStore.isWhole_tryApply (StoredEntry.mk store key) event
  rw [perform, isWhole.eq_atOnce]
  change settle (.atOnce _ (EntryStore.apply (StoredEntry.mk store key) event)) = _
  rw [StoredEntry.apply_eq]
  cases LogStore.apply store key event <;> rfl

theorem perform_record [LogStore σ] (store : σ) (key : String) (known : ChainIdentity) :
    (record known).perform (StoredEntry.mk store key) =
      match LogStore.record store key known with
      | .ok after => (.done (.ok ()), ⟨after, key⟩)
      | .error error => (.done (.error error), ⟨store, key⟩) := by
  have isWhole := EntryStore.isWhole_tryRecord (StoredEntry.mk store key) known
  rw [perform, isWhole.eq_atOnce]
  change settle (.atOnce _ (EntryStore.record (StoredEntry.mk store key) known)) = _
  rw [StoredEntry.record_eq]
  cases LogStore.record store key known <;> rfl

theorem perform_apply_memory (memory : MemoryStore) (key : String) (event : Event) :
    (apply event).perform (StoredEntry.mk memory key) =
      match (memory.entry key).apply event with
      | .ok after => (.done (.ok ()), ⟨memory.setEntry key after, key⟩)
      | .error error => (.done (.error error), ⟨memory, key⟩) := by
  rw [perform_apply, MemoryStore.apply_eq]
  cases (memory.entry key).apply event <;> rfl

theorem perform_apply_alone (entry : Entry) (event : Event) :
    (apply event).perform entry =
      match entry.apply event with
      | .ok after => (.done (.ok ()), after)
      | .error error => (.done (.error error), entry) := by
  change settle (.atOnce entry (entry.apply event)) = _
  cases entry.apply event <;> rfl

/-- A change that is refused leaves the entry as it was. -/
theorem perform_refused {ε : Type} [EntryStore ε] {entry : ε} {call : EntryCall} {error : SyncError}
    (refused : (call.perform entry).1 = .done (.error error)) : (call.perform entry).2 = entry := by
  cases call with
  | lastIndex | log? | logs | logsByIndex | lastBlock | identity => rfl
  | apply event => exact EntryStore.isWhole_tryApply entry event error (EntryAnswer.done.inj refused)
  | record known => exact EntryStore.isWhole_tryRecord entry known error (EntryAnswer.done.inj refused)

/-- What a store in memory answers depends on the entry alone. -/
theorem answer_memory (memory : MemoryStore) (key : String) (call : EntryCall) :
    (call.perform (StoredEntry.mk memory key)).1 = (call.perform (memory.entry key)).1 := by
  cases call with
  | lastIndex | log? | logs | lastBlock | identity | record => rfl
  | logsByIndex =>
      have stored : EntryStore.logsByIndex (StoredEntry.mk memory key) =
          .ok (memory.entry key).logs := EntryStore.logsByIndex_eq rfl fun _ _ => rfl
      have alone : EntryStore.logsByIndex (memory.entry key) = .ok (memory.entry key).logs :=
        EntryStore.logsByIndex_eq rfl fun _ _ => rfl
      exact congrArg EntryAnswer.logs (stored.trans alone.symm)
  | apply event =>
      rw [perform_apply_memory, perform_apply_alone]
      cases (memory.entry key).apply event <;> rfl

/-- A call changes its own entry, if any. -/
theorem entry_memory (memory : MemoryStore) (key : String) (call : EntryCall) (other : String) :
    (call.perform (StoredEntry.mk memory key)).2.store.entry other =
      if other = key then (call.perform (memory.entry key)).2 else memory.entry other := by
  have set (after : Entry) : (memory.setEntry key after).entry other =
      if other = key then after else memory.entry other := by
    split
    case isTrue same => rw [same, MemoryStore.entry_setEntry]
    case isFalse apart => rw [MemoryStore.entry_setEntry_ne apart]
  have same : memory.entry other =
      if other = key then memory.entry key else memory.entry other := by
    split
    case isTrue same => rw [same]
    case isFalse => rfl
  cases call with
  | lastIndex | log? | logs | logsByIndex | lastBlock | identity => exact same
  | record known => exact set _
  | apply event =>
      rw [perform_apply_memory, perform_apply_alone]
      cases (memory.entry key).apply event with
      | error error => exact same
      | ok after => exact set after

theorem inRange_perform {entry : Entry} (inRange : entry.InRange) {call : EntryCall}
    (fits : call.InRange) : (call.perform entry).2.InRange := by
  cases call with
  | lastIndex | log? | logs | logsByIndex | lastBlock | identity => exact inRange
  | record known =>
      refine ⟨inRange.logs, inRange.lastBlock, ?_⟩
      rintro identity ⟨⟩
      exact fits
  | apply event =>
      rw [perform_apply_alone]
      cases applied : entry.apply event with
      | error error => exact inRange
      | ok after => exact inRange.apply fits applied

theorem opened_setEntry_self (memory : MemoryStore) (key : String) (entry : Entry) :
    (memory.setEntry key entry).entries.lookup key =
      some ((memory.setEntry key entry).entry key) := by
  rw [MemoryStore.entry_setEntry, MemoryStore.lookup_setEntry]

/-- A key that has an entry keeps one. -/
theorem opened_setEntry {other : String}
    (opened : memory.entries.lookup other = some (memory.entry other)) (key : String)
    (entry : Entry) :
    (memory.setEntry key entry).entries.lookup other =
      some ((memory.setEntry key entry).entry other) := by
  by_cases same : other = key
  · rw [same]
    exact opened_setEntry_self memory key entry
  · rw [MemoryStore.entry_setEntry_ne same, ← opened]
    exact MemoryStore.lookup_replace_ne same entry memory.entries

theorem opened_perform {other : String}
    (opened : memory.entries.lookup other = some (memory.entry other)) (key : String)
    (call : EntryCall) :
    (call.perform (StoredEntry.mk memory key)).2.store.entries.lookup other =
      some ((call.perform (StoredEntry.mk memory key)).2.store.entry other) := by
  cases call with
  | lastIndex | log? | logs | logsByIndex | lastBlock | identity => exact opened
  | record known => exact opened_setEntry opened key _
  | apply event =>
      rw [perform_apply_memory]
      cases (memory.entry key).apply event with
      | error error => exact opened
      | ok after => exact opened_setEntry opened key after

/-! ## Calls of tables -/

theorem logsByIndex_tables (shown : table.Shows memory) (inRange : (memory.entry key).InRange)
    (small : (memory.entry key).logs.length < TableStore.columnLimit) :
    EntryStore.logsByIndex (StoredEntry.mk table key) = .ok (memory.entry key).logs := by
  refine EntryStore.logsByIndex_eq shown.lastIndex fun index within => ?_
  exact shown.log? inRange.logs small
    (Nat.lt_trans (Nat.lt_trans within small) TableStore.columnLimit_lt)

/-- What tables answer, by the entry in memory that they show. -/
def answerInTables (entry : Entry) : EntryCall → EntryAnswer
  | .apply event => .done ((entry.applyFew event).map fun _ => ())
  | call => (call.perform entry).1

/-- What the tables show after a call. -/
def shownAfter (memory : MemoryStore) (key : String) : EntryCall → MemoryStore
  | .apply event =>
      match (memory.entry key).applyFew event with
      | .ok after => memory.setEntry key after
      | .error _ => memory
  | call => (call.perform (StoredEntry.mk memory key)).2.store

/-- A call changes no other entry, and closes none. -/
theorem shownAfter_other (memory : MemoryStore) {other : String} (apart : other ≠ key)
    (call : EntryCall) :
    (call.shownAfter memory key).entry other = memory.entry other := by
  cases call with
  | lastIndex | log? | logs | logsByIndex | lastBlock | identity => rfl
  | record known => exact MemoryStore.entry_setEntry_ne apart memory _
  | apply event =>
      rw [shownAfter]
      split
      · exact MemoryStore.entry_setEntry_ne apart memory _
      · rfl

theorem opened_shownAfter {other : String}
    (opened : memory.entries.lookup other = some (memory.entry other)) (key : String)
    (call : EntryCall) :
    (call.shownAfter memory key).entries.lookup other =
      some ((call.shownAfter memory key).entry other) := by
  cases call with
  | lastIndex | log? | logs | logsByIndex | lastBlock | identity => exact opened
  | record known => exact opened_setEntry opened key _
  | apply event =>
      rw [shownAfter]
      split
      · exact opened_setEntry opened key _
      · exact opened

theorem perform_tables (shown : table.Shows memory)
    (opened : memory.entries.lookup key = some (memory.entry key))
    (inRange : (memory.entry key).InRange)
    (small : (memory.entry key).logs.length < TableStore.columnLimit) {call : EntryCall}
    (fits : call.InRange) :
    (call.perform (StoredEntry.mk table key)).1 = call.answerInTables (memory.entry key) ∧
      (call.perform (StoredEntry.mk table key)).2.store.Shows (call.shownAfter memory key) := by
  cases call with
  | lastIndex => exact ⟨congrArg EntryAnswer.count shown.lastIndex, shown⟩
  | log? index => exact ⟨congrArg EntryAnswer.log (shown.log? inRange.logs small fits), shown⟩
  | logs => exact ⟨congrArg EntryAnswer.logs (shown.readLogs inRange.logs small), shown⟩
  | logsByIndex =>
      have inTables := logsByIndex_tables shown inRange small
      have alone : EntryStore.logsByIndex (memory.entry key) = .ok (memory.entry key).logs :=
        EntryStore.logsByIndex_eq rfl fun _ _ => rfl
      exact ⟨congrArg EntryAnswer.logs (inTables.trans alone.symm), shown⟩
  | lastBlock => exact ⟨congrArg EntryAnswer.block (shown.lastBlock inRange.lastBlock), shown⟩
  | identity => exact ⟨congrArg EntryAnswer.identity (shown.identity inRange.identity), shown⟩
  | record known =>
      rcases shown.record opened known with ⟨after, recorded, shows⟩
      rw [perform_record table, recorded]
      exact ⟨rfl, shows⟩
  | apply event =>
      rw [perform_apply table, answerInTables, shownAfter]
      cases applied : (memory.entry key).applyFew event with
      | error error =>
          rw [shown.apply_error opened small applied]
          exact ⟨rfl, shown⟩
      | ok entry =>
          rcases shown.apply_ok opened small fits applied with ⟨after, stored, shows⟩
          rw [stored]
          exact ⟨rfl, shows⟩

/-- As long as few logs are left, that is what a store in memory answers and shows. -/
theorem perform_few {call : EntryCall}
    (few : ((call.perform (StoredEntry.mk memory key)).2.store.entry key).logs.length <
      TableStore.columnLimit) :
    call.answerInTables (memory.entry key) = (call.perform (StoredEntry.mk memory key)).1 ∧
      call.shownAfter memory key = (call.perform (StoredEntry.mk memory key)).2.store := by
  rw [answer_memory]
  cases call with
  | lastIndex | log? | logs | logsByIndex | lastBlock | identity | record => exact ⟨rfl, rfl⟩
  | apply event =>
      rw [perform_apply_memory] at few ⊢
      rw [perform_apply_alone, answerInTables, shownAfter, Entry.applyFew]
      cases applied : (memory.entry key).apply event with
      | error error => exact ⟨rfl, rfl⟩
      | ok after =>
          rw [applied] at few
          dsimp only at few
          rw [MemoryStore.entry_setEntry] at few
          have isFew : (do
              let after ← (Except.ok after : Except SyncError Entry)
              if after.logs.length < TableStore.columnLimit then return after
              else throw (.storage unspecified)) = Except.ok after := if_pos few
          rw [isFew]
          exact ⟨rfl, rfl⟩

end EntryCall

/-! ## Clients of tables -/

namespace Client

/-- A client of tables and one of a store in memory have the same behind their handles. -/
structure Shows (tables : Client TableStore) (memory : Client MemoryStore) : Prop where
  store : tables.store.Shows memory.store
  handles : tables.handles = memory.handles
  opened : ∀ key ∈ memory.handles,
    memory.store.entries.lookup key = some (memory.store.entry key)
  inRange : ∀ key, (memory.store.entry key).InRange

variable {tables : Client TableStore} {memory : Client MemoryStore}

theorem shows_new : Shows { store := {} } { store := {} } where
  store := TableStore.shows_empty
  handles := rfl
  opened := nofun
  inRange _ := Entry.inRange_empty

theorem length_lt_of_isSmall {store : MemoryStore} (small : store.IsSmall) (key : String) :
    (store.entry key).logs.length < TableStore.columnLimit := by
  rw [MemoryStore.entry]
  cases held : store.entries.lookup key with
  | none =>
      change 0 < TableStore.columnLimit
      rw [TableStore.columnLimit_eq]
      omega
  | some entry =>
      rcases List.lookup_eq_some_iff.mp held with ⟨front, back, entries, -⟩
      refine small (key, entry) ?_
      rw [entries]
      exact List.mem_append_right _ List.mem_cons_self

/-- What one step answers, and what it leaves behind. -/
theorem Shows.perform (shown : tables.Shows memory) (small : memory.store.IsSmall)
    {step : StoreStep} (inRange : step.InRange) (few : (memory.perform id step).2.store.IsSmall) :
    (tables.perform (fun store => store.close.reopen) step).1 = (memory.perform id step).1 ∧
      (tables.perform (fun store => store.close.reopen) step).2.Shows
        (memory.perform id step).2 := by
  cases step with
  | openEntry filter =>
      rcases shown.store.openEntry filter with ⟨after, opening, shows⟩
      have inTables : tables.perform (fun store => store.close.reopen) (.openEntry filter) =
          (.opened (.ok memory.handles.length),
            { store := after, handles := memory.handles ++ [filter.fingerprint] }) := by
        rw [Client.perform, opening, shown.handles]
      rw [inTables]
      refine ⟨rfl, ⟨shows, rfl, fun key isHandle => ?_, fun key => ?_⟩⟩
      · rcases List.mem_append.mp isHandle with old | isNew
        · exact EntryCall.opened_setEntry (shown.opened key old) _ _
        · rw [List.mem_singleton.mp isNew]
          exact EntryCall.opened_setEntry_self memory.store filter.fingerprint _
      · change ((memory.store.setEntry _ _).entry key).InRange
        by_cases same : key = filter.fingerprint
        · rw [← same, MemoryStore.entry_setEntry]
          exact shown.inRange key
        · rw [MemoryStore.entry_setEntry_ne same]
          exact shown.inRange key
  | restart =>
      exact ⟨rfl, ⟨⟨rfl, shown.store.entries, shown.store.distinct, shown.store.logs⟩, rfl, nofun,
        shown.inRange⟩⟩
  | count =>
      exact ⟨congrArg StoreAnswer.count shown.store.count, shown⟩
  | call handle call =>
      rw [Client.perform] at few ⊢
      rw [Client.perform, shown.handles]
      cases isHandle : memory.handles[handle]? with
      | none => exact ⟨rfl, shown⟩
      | some key =>
          rw [isHandle] at few
          have opened := shown.opened key (List.mem_of_getElem? isHandle)
          have answers := EntryCall.perform_tables shown.store opened (shown.inRange key)
            (length_lt_of_isSmall small key) inRange
          have asInMemory := EntryCall.perform_few (length_lt_of_isSmall few key)
          rw [asInMemory.1, asInMemory.2] at answers
          refine ⟨congrArg StoreAnswer.entry answers.1, ⟨answers.2, rfl, ?_, fun other => ?_⟩⟩
          · intro other isOther
            exact EntryCall.opened_perform (shown.opened other isOther) key call
          · change ((call.perform (StoredEntry.mk memory.store key)).2.store.entry other).InRange
            rw [EntryCall.entry_memory]
            split
            · exact EntryCall.inRange_perform (shown.inRange key) inRange
            · exact shown.inRange other

/-- The same for any number of steps. -/
theorem Shows.performAll {steps : List StoreStep} (shown : tables.Shows memory)
    (small : ∀ front ∈ steps.inits, (memory.performAll id front).2.store.IsSmall)
    (inRange : ∀ step ∈ steps, step.InRange) :
    (tables.performAll (fun store => store.close.reopen) steps).1 = (memory.performAll id steps).1 ∧
      (tables.performAll (fun store => store.close.reopen) steps).2.Shows
        (memory.performAll id steps).2 := by
  induction steps generalizing tables memory with
  | nil => exact ⟨rfl, shown⟩
  | cons step rest induction =>
      rw [List.inits_cons] at small
      have smallNow : memory.store.IsSmall := small [] List.mem_cons_self
      have smallThen : (memory.performAll id [step]).2.store.IsSmall :=
        small [step] (List.mem_cons_of_mem _ (List.mem_map_of_mem ((List.mem_inits _ rest).mpr (List.nil_prefix))))
      have now := shown.perform smallNow (inRange step List.mem_cons_self) smallThen
      have later := induction now.2
        (fun front isFront =>
          small (step :: front) (List.mem_cons_of_mem _ (List.mem_map_of_mem isFront)))
        (fun other isOther => inRange other (List.mem_cons_of_mem _ isOther))
      exact ⟨congrArg₂ List.cons now.1 later.1, later.2⟩

/-- What is done with one entry cannot be seen at another one. -/
theorem Shows.answer_other (shown : tables.Shows memory) (small : memory.store.IsSmall)
    {key other : String} (isHandle : key ∈ memory.handles) (isOther : other ∈ memory.handles)
    (apart : other ≠ key) {call read : EntryCall} (fits : call.InRange) (readFits : read.InRange) :
    (read.perform
        (StoredEntry.mk (call.perform (StoredEntry.mk tables.store key)).2.store other)).1 =
      (read.perform (StoredEntry.mk tables.store other)).1 := by
  have after := (EntryCall.perform_tables shown.store (shown.opened key isHandle)
    (shown.inRange key) (length_lt_of_isSmall small key) fits).2
  have unchanged := EntryCall.shownAfter_other memory.store apart call
  -- The other entry may be read after the call, because the call left it as small as it was.
  have opened := EntryCall.opened_shownAfter (shown.opened other isOther) key call
  have smallOther := length_lt_of_isSmall small other
  have answers := (EntryCall.perform_tables after opened (unchanged ▸ shown.inRange other)
    (unchanged ▸ smallOther) readFits).1
  rw [answers, unchanged]
  exact (EntryCall.perform_tables shown.store (shown.opened other isOther) (shown.inRange other)
    smallOther readFits).1.symm

/-- Tables answer whatever they are asked as a store in memory does, through any handles
and however often they are closed and opened again. So an index has a log exactly below the
number of logs, all logs are the same one by one, a change that is refused leaves an entry
as it was, and entries do not disturb one another. -/
theorem tables_answer_as_memory (steps : List StoreStep)
    (inRange : ∀ step ∈ steps, step.InRange)
    (small : ∀ front ∈ steps.inits, (inMemory front).2.store.IsSmall) :
    (onTables steps).1 = (inMemory steps).1 ∧
    ∀ key ∈ (onTables steps).2.handles,
      let entry : StoredEntry TableStore := ⟨(onTables steps).2.store, key⟩
      (∃ count, EntryStore.lastIndex entry = .ok count ∧
        ∀ index < Word.size 64, ∃ log?, EntryStore.log? entry index = .ok log? ∧
          (log?.isSome ↔ index < count)) ∧
      EntryStore.logsByIndex entry = EntryStore.logs entry ∧
      ∀ call : EntryCall, call.InRange →
        (∀ error, (call.perform entry).1 = .done (.error error) →
          (call.perform entry).2 = entry) ∧
        ∀ other ∈ (onTables steps).2.handles, other ≠ key →
          ∀ read : EntryCall, read.InRange →
            (read.perform (StoredEntry.mk (call.perform entry).2.store other)).1 =
              (read.perform (StoredEntry.mk entry.store other)).1 := by
  have run := shows_new.performAll small inRange
  have smallNow : (inMemory steps).2.store.IsSmall :=
    small steps ((List.mem_inits steps steps).mpr (List.prefix_refl steps))
  refine ⟨run.1, fun key isHandle => ?_⟩
  have shown : (onTables steps).2.Shows (inMemory steps).2 := run.2
  rw [shown.handles] at isHandle ⊢
  have smallEntry := length_lt_of_isSmall smallNow key
  have store := shown.store
  have range := shown.inRange key
  refine ⟨⟨_, store.lastIndex, fun index fits => ⟨_, store.log? range.logs smallEntry fits, ?_⟩⟩, ?_, ?_⟩
  · rw [isSome_getElem?]
  · exact (EntryCall.logsByIndex_tables store range smallEntry).trans
      (store.readLogs range.logs smallEntry).symm
  · intro call fits
    refine ⟨fun error => EntryCall.perform_refused, fun other isOther apart read readFits => ?_⟩
    exact shown.answer_other smallNow isHandle isOther apart fits readFits

/-- Two entries, a cut, a cut that is refused, numbers that are negative in their columns, and
a restart. -/
def visits : List StoreStep :=
  let block (number : Nat) (hash : String) : Block :=
    { number, hash, parentHash := "", timestamp := 0 }
  let log (data : String) : Log :=
    { address := "0xa", topics := ["0xs"], data, blockNumber := 1, blockHash := "b1",
      transactionHash := "t", transactionIndex := 0 }
  [.openEntry (.forAddress "0xA"), .openEntry {},
    .call 0 (.record ⟨18446744073709551615, "b0"⟩),
    .call 0 (.apply (.append [log "x", log "y"] (block 1 "b1"))),
    .call 0 (.apply ⟨[log "z"], [log "y"], some 1, block 2 "b2"⟩),
    .call 0 (.apply ⟨[], [], some 3, block 3 "b3"⟩),
    .call 1 .logsByIndex, .restart, .call 0 .logs,
    .openEntry (.forAddress "0xa"), .call 0 .logsByIndex, .call 0 .identity, .call 0 .lastBlock,
    .call 0 (.log? 18446744073709551615), .count]

theorem inRange_visits : ∀ step ∈ visits, step.InRange := by
  have small (number : Nat) (isSmall : number < 4) : number < Quantity.limit := by
    rw [Quantity.limit, TableStore.size_eq]
    omega
  have huge : 18446744073709551615 < Word.size 64 := by
    rw [TableStore.size_eq]
    omega
  have added (data : String) : Log.InRange
      { address := "0xa", topics := ["0xs"], data, blockNumber := 1, blockHash := "b1",
        transactionHash := "t", transactionIndex := 0 } :=
    ⟨small 1 (by omega), small 0 (by omega), small 0 (by omega)⟩
  simp only [visits, List.forall_mem_cons, StoreStep.InRange, EntryCall.InRange, true_and]
  refine ⟨huge, ⟨?_, small 1 (by omega), small 0 (by omega)⟩,
    ⟨?_, small 2 (by omega), small 0 (by omega)⟩, ⟨nofun, small 3 (by omega), small 0 (by omega)⟩,
    huge, nofun⟩
  · simp only [Event.append, List.forall_mem_cons]
    exact ⟨added "x", added "y", nofun⟩
  · simp only [List.forall_mem_cons]
    exact ⟨added "z", nofun⟩

/-- A run on two entries that is refused one change, and goes on after a restart. -/
theorem tables_answer_as_memory_after_restart :
    (onTables visits).1 = (inMemory visits).1 ∧
    ∀ key ∈ (onTables visits).2.handles,
      let entry : StoredEntry TableStore := ⟨(onTables visits).2.store, key⟩
      (∃ count, EntryStore.lastIndex entry = .ok count ∧
        ∀ index < Word.size 64, ∃ log?, EntryStore.log? entry index = .ok log? ∧
          (log?.isSome ↔ index < count)) ∧
      EntryStore.logsByIndex entry = EntryStore.logs entry := by
  have small : ∀ front ∈ visits.inits, (inMemory front).2.store.IsSmall := by decide +kernel
  have same := tables_answer_as_memory visits inRange_visits small
  exact ⟨same.1, fun key isHandle => ⟨(same.2 key isHandle).1, (same.2 key isHandle).2.1⟩⟩

end Client

end ReorgSync
