import ReorgSync.Store.Rows

namespace ReorgSync

/-! A store in tables. An event is applied by several statements, which are one
transaction: what they change is pending, and nobody else sees it, until it is
committed. If one of them fails, the transaction is given up, and with it what
the statements in front of it have changed. -/

namespace TableStore

/-! ## Transactions -/

structure Transaction where
  /-- The tables as all others see them. -/
  committed : TableStore
  pending : TableStore

/-- Statements of a transaction. The first that fails is the last. -/
abbrev Statements (α : Type) := EStateM SyncError Transaction α

namespace Statements

def select (read : TableStore → α) : Statements α :=
  return read (← get).pending

def execute (change : TableStore → Except SyncError TableStore) : Statements Unit := do
  match change (← get).pending with
  | .ok pending => modify fun transaction => { transaction with pending }
  | .error error => throw error

/-- Cut the logs of an entry, and answer how many are left. -/
def truncate (key : String) (truncateTo : Option Nat) : Statements Nat := do
  let count ← select (·.logCount key)
  match truncateTo with
  | none => return count
  | some length =>
      if count < length then throw (Entry.truncationError count length)
      else
        execute fun store => .ok (store.deleteFrom key length)
        return length

/-- Add a log as the row of an index. -/
def insertLog (key : String) (index : Nat) (log : Log) : Statements Unit :=
  execute fun store => do
    store.insertRow ⟨key, toColumn index, ← writeColumn Log.encode Log.InRange log⟩

def insertLogs (key : String) : (next : Nat) → List Log → Statements Unit
  | _, [] => return ()
  | next, log :: rest => do
      insertLog key next log
      insertLogs key (next + 1) rest

/-- The statements by which an event is applied to an entry. -/
def ofEvent (key : String) (event : Event) : Statements Unit := do
  let next ← truncate key event.truncateTo
  insertLogs key next event.added
  execute fun store => do
    let blockText ← writeColumn Block.encode Block.InRange event.block
    return store.updateEntry key fun row => { row with lastBlockText := some blockText }

end Statements

/-- Commit what all statements have changed, or nothing if one of them fails. -/
def transact (store : TableStore) (statements : Statements Unit) : Change TableStore :=
  match statements.run { committed := store, pending := store } with
  | .ok _ transaction => ⟨.ok (), transaction.pending⟩
  | .error error transaction => ⟨.error error, transaction.committed⟩

def applyEvent (store : TableStore) (key : String) (event : Event) : Change TableStore :=
  match store.connected with
  | .ok () => store.transact (.ofEvent key event)
  | .error error => ⟨.error error, store⟩

/-! ### Giving up -/

namespace Statements

/-- What is there when the statements end, also where they fail. -/
def after (statements : Statements α) (before : Transaction) : Transaction :=
  match statements.run before with
  | .ok _ after => after
  | .error _ after => after

/-- Whatever the statements change stays pending. -/
def StaysPending (statements : Statements α) : Prop :=
  ∀ before, (statements.after before).committed = before.committed

theorem staysPending_return (value : α) : StaysPending (pure value) :=
  fun _ => rfl

theorem staysPending_throw (error : SyncError) : StaysPending (throw error : Statements α) :=
  fun _ => rfl

theorem StaysPending.andThen {first : Statements α} {second : α → Statements β}
    (stays : first.StaysPending) (continues : ∀ value, (second value).StaysPending) :
    (first >>= second).StaysPending := by
  intro before
  have kept := stays before
  rw [after] at kept ⊢
  rw [EStateM.run_bind]
  cases ended : first.run before with
  | error error between =>
      rw [ended] at kept
      exact kept
  | ok value between =>
      rw [ended] at kept
      exact (continues value between).trans kept

theorem staysPending_select (read : TableStore → α) : (select read).StaysPending :=
  fun _ => rfl

theorem staysPending_execute (change : TableStore → Except SyncError TableStore) :
    (execute change).StaysPending := by
  have stays (changed : Except SyncError TableStore) : StaysPending (match changed with
      | .ok pending => modify fun transaction => { transaction with pending }
      | .error error => throw error) := by
    cases changed with
    | ok pending => exact fun _ => rfl
    | error error => exact staysPending_throw error
  exact .andThen (fun _ => rfl) fun transaction => stays (change transaction.pending)

theorem staysPending_truncate (key : String) (truncateTo : Option Nat) :
    (truncate key truncateTo).StaysPending := by
  refine .andThen (staysPending_select _) fun count => ?_
  cases truncateTo with
  | none => exact staysPending_return count
  | some length =>
      dsimp only
      split
      · exact staysPending_throw _
      · exact .andThen (staysPending_execute _) fun _ => staysPending_return length

theorem staysPending_insertLogs (key : String) (next : Nat) (logs : List Log) :
    (insertLogs key next logs).StaysPending := by
  induction logs generalizing next with
  | nil => exact staysPending_return ()
  | cons log rest induction => exact .andThen (staysPending_execute _) fun _ => induction (next + 1)

theorem staysPending_ofEvent (key : String) (event : Event) : (ofEvent key event).StaysPending :=
  .andThen (staysPending_truncate key _) fun next =>
    .andThen (staysPending_insertLogs key next _) fun _ => staysPending_execute _

end Statements

/-- A transaction that is given up has changed nothing. -/
theorem isWhole_transact {store : TableStore} {statements : Statements Unit}
    (stays : statements.StaysPending) : (store.transact statements).IsWhole store := by
  intro error refused
  have kept := stays { committed := store, pending := store }
  rw [Statements.after] at kept
  rw [transact] at refused ⊢
  split at refused
  · cases refused
  case h_2 ended =>
    rw [ended] at kept
    exact kept

theorem isWhole_applyEvent (store : TableStore) (key : String) (event : Event) :
    (store.applyEvent key event).IsWhole store := by
  rw [applyEvent]
  split
  · exact isWhole_transact (Statements.staysPending_ofEvent key event)
  · exact fun _ _ => rfl

/-! ## Entries -/

instance : LogStore TableStore where
  count store := do
    store.connected
    return store.entries.length
  openEntry store filter := do
    store.connected
    let key := filter.fingerprint
    match store.entryRow? key with
    | some _ => return store
    | none =>
        return { store with
          entries := store.entries ++ [{ fingerprint := key, filterText := filter.canonicalText }] }
  lastIndex store key := do
    store.connected
    return store.logCount key
  log? store key index := do
    store.connected
    let row? := store.logs.find? fun row => row.fingerprint == key && row.index == toColumn index
    match row? with
    | some row => return some (← readColumn Log.decoder row.text)
    | none => return none
  logs store key := do
    store.connected
    readRows (store.logRows key)
  lastBlock store key := do
    store.connected
    match (store.entryRow? key).bind (·.lastBlockText) with
    | some text => return some (← readColumn Block.decoder text)
    | none => return none
  identity store key := do
    store.connected
    match store.entryRow? key with
    | some row =>
        match row.chainId, row.genesisHash with
        | some chainId, some genesisHash => return some ⟨ofColumn chainId, genesisHash⟩
        | _, _ => return none
    | none => return none
  tryApply store key event := store.applyEvent key event
  tryRecord store key identity := .atOnce store do
    store.connected
    return store.updateEntry key fun row =>
      { row with
        chainId := some (toColumn identity.chainId)
        genesisHash := some identity.genesisHash }
  isWhole_tryApply := isWhole_applyEvent
  isWhole_tryRecord store _ _ := Change.isWhole_atOnce store _

theorem record_eq (store : TableStore) (key : String) (identity : ChainIdentity) :
    LogStore.record store key identity = (do
      store.connected
      return store.updateEntry key fun row =>
        { row with
          chainId := some (toColumn identity.chainId)
          genesisHash := some identity.genesisHash }) :=
  Change.made_atOnce store _

end TableStore

end ReorgSync
