import ReorgSync.Proofs.Store.Rows
import ReorgSync.Store.Table

namespace ReorgSync

/-! What an event does to tables: its transaction puts the rows of its logs behind what is
left by the cut, or is given up. -/

/-- Everything that an event adds fits its columns. -/
structure Event.InRange (event : Event) : Prop where
  added : ∀ log ∈ event.added, log.InRange
  block : event.block.InRange

namespace TableStore

variable {store after : TableStore} {key : String} {row : LogRow} {next : Nat} {logs : List Log}

/-! ## Single statements -/

def addRows (store : TableStore) (rows : List LogRow) : TableStore :=
  { store with logs := store.logs ++ rows }

theorem addRows_nil (store : TableStore) : store.addRows [] = store := by
  rw [addRows, List.append_nil]

theorem addRows_addRows (store : TableStore) (front back : List LogRow) :
    (store.addRows front).addRows back = store.addRows (front ++ back) := by
  simp only [addRows, List.append_assoc]

theorem logCount_addRows (store : TableStore) (row : LogRow) :
    (store.addRows [row]).logCount row.fingerprint = store.logCount row.fingerprint + 1 := by
  simp [addRows, logCount]

theorem insertRow_eq_ok : store.insertRow row = .ok after ↔
    (∀ other ∈ store.logs, other.fingerprint = row.fingerprint → other.index ≠ row.index) ∧
      store.logCount row.fingerprint < rowLimit ∧ after = store.addRows [row] := by
  have isFree : (store.logs.any fun other =>
      other.fingerprint == row.fingerprint && other.index == row.index) = false ↔
      ∀ other ∈ store.logs, other.fingerprint = row.fingerprint → other.index ≠ row.index := by
    simp
  rw [insertRow]
  split
  case isTrue taken => exact ⟨nofun, fun stored => by simp [isFree.mpr stored.1] at taken⟩
  case isFalse free =>
    have free := isFree.mp (Bool.eq_false_of_not_eq_true free)
    split
    case isTrue full => exact ⟨nofun, fun stored => absurd full (Nat.not_le.mpr stored.2.1)⟩
    case isFalse room =>
      exact ⟨fun same => ⟨free, Nat.not_le.mp room, (Except.ok.inj same).symm⟩,
        fun stored => by rw [stored.2.2, addRows]⟩

namespace Statements

variable {transaction ended : Transaction}

theorem run_execute {change : TableStore → Except SyncError TableStore} :
    (execute change).run transaction =
      match change transaction.pending with
      | .ok pending => .ok () { transaction with pending }
      | .error error => .error error transaction := by
  change EStateM.run (match change transaction.pending with
    | .ok pending => modify fun transaction => { transaction with pending }
    | .error error => throw error) transaction = _
  cases change transaction.pending <;> rfl

/-- A log becomes a row if it is in range, its index is free, and there is room. -/
theorem run_insertLog_eq_ok {index : Nat} {log : Log} :
    (insertLog key index log).run transaction = .ok () ended ↔
      log.InRange ∧
      (∀ row ∈ transaction.pending.logs, row.fingerprint = key → row.index ≠ toColumn index) ∧
      transaction.pending.logCount key < rowLimit ∧
      ended = { transaction with
        pending := transaction.pending.addRows [⟨key, toColumn index, log.encode.print⟩] } := by
  rw [insertLog, run_execute]
  -- Left as it is, the column would be computed.
  generalize toColumn index = column
  by_cases inRange : log.InRange
  · have isText : writeColumn Log.encode Log.InRange log = .ok log.encode.print :=
      writeColumn_eq_ok.mpr ⟨inRange, rfl⟩
    simp only [isText, bind, Except.bind]
    constructor
    · intro stored
      split at stored
      case h_1 pending inserted =>
        rcases insertRow_eq_ok.mp inserted with ⟨free, room, rfl⟩
        cases stored
        exact ⟨inRange, free, room, rfl⟩
      case h_2 => cases stored
    · rintro ⟨-, free, room, rfl⟩
      rw [insertRow_eq_ok.mpr ⟨free, room, rfl⟩]
  · refine ⟨fun stored => ?_, fun stored => absurd stored.1 inRange⟩
    rw [writeColumn, if_neg inRange] at stored
    cases stored

theorem insertRow_refused {error : SyncError} (refused : store.insertRow row = .error error) :
    error = .storage unspecified := by
  rw [insertRow] at refused
  split at refused
  · exact (Except.error.inj refused).symm
  · split at refused
    · exact (Except.error.inj refused).symm
    · cases refused

theorem insertLog_refused {index : Nat} {log : Log} {error : SyncError}
    (refused : (insertLog key index log).run transaction = .error error ended) :
    error = .storage unspecified := by
  rw [insertLog, run_execute, writeColumn] at refused
  split at refused
  · cases refused
  case h_2 cause failed =>
    cases refused
    split at failed
    · exact insertRow_refused failed
    · exact (Except.error.inj failed).symm

/-! ## Rows of an event -/

/-- Logs that were added are in range, and each has a row of its own. -/
theorem of_run_insertLogs (stored : (insertLogs key next logs).run transaction = .ok () ended) :
    (∀ log ∈ logs, log.InRange) ∧
      (logs = [] ∨ transaction.pending.logCount key + logs.length ≤ rowLimit) ∧
      ended = { transaction with pending := transaction.pending.addRows (newRows key next logs) } := by
  induction logs generalizing next transaction with
  | nil =>
      cases stored
      exact ⟨nofun, .inl rfl, by rw [newRows, addRows_nil]⟩
  | cons log rest induction =>
      rw [insertLogs, EStateM.run_bind] at stored
      cases inserted : (insertLog key next log).run transaction with
      | error error between =>
          rw [inserted] at stored
          cases stored
      | ok _ between =>
          rw [inserted] at stored
          rcases run_insertLog_eq_ok.mp inserted with ⟨inRange, -, room, rfl⟩
          rcases induction stored with ⟨others, roomThen, rfl⟩
          refine ⟨List.forall_mem_cons.mpr ⟨inRange, others⟩, .inr ?_, ?_⟩
          · rcases roomThen with rfl | roomThen
            · exact room
            · have counted := logCount_addRows transaction.pending
                ⟨key, toColumn next, log.encode.print⟩
              dsimp only at roomThen counted
              rw [counted] at roomThen
              rw [List.length_cons]
              omega
          · rw [addRows_addRows, newRows, List.singleton_append]

/-- Logs behind all others are added, as long as they are few. -/
theorem run_insertLogs (inRange : ∀ log ∈ logs, log.InRange)
    (below : ∀ row ∈ transaction.pending.logs, row.fingerprint = key →
      ∃ place < next, row.index = toColumn place)
    (counted : transaction.pending.logCount key = next)
    (small : next + logs.length < columnLimit) :
    (insertLogs key next logs).run transaction = .ok ()
      { transaction with pending := transaction.pending.addRows (newRows key next logs) } := by
  induction logs generalizing next transaction with
  | nil =>
      rw [newRows, addRows_nil]
      rfl
  | cons log rest induction =>
      rw [List.length_cons] at small
      rcases List.forall_mem_cons.mp inRange with ⟨first, others⟩
      let row : LogRow := ⟨key, toColumn next, log.encode.print⟩
      have inserted : (insertLog key next log).run transaction =
          .ok () { transaction with pending := transaction.pending.addRows [row] } := by
        refine run_insertLog_eq_ok.mpr ⟨first, fun other isRow own taken => ?_, ?_, rfl⟩
        · rcases below other isRow own with ⟨place, before, isPlace⟩
          have bounds := columnLimit_lt
          have same := toColumn_injective (by omega) (by omega) (isPlace.symm.trans taken)
          omega
        · rw [counted]
          rw [columnLimit] at small
          rw [rowLimit]
          omega
      rw [insertLogs, EStateM.run_bind, inserted]
      dsimp only
      have counted : (transaction.pending.addRows [row]).logCount key = next + 1 := by
        rw [← counted]
        exact logCount_addRows transaction.pending row
      rw [induction others ?_ counted (by omega)]
      · rw [addRows_addRows, newRows, List.singleton_append]
      · intro other isRow own
        rcases List.mem_append.mp isRow with old | isNew
        · rcases below other old own with ⟨place, before, isPlace⟩
          exact ⟨place, Nat.lt_succ_of_lt before, isPlace⟩
        · rw [List.mem_singleton.mp isNew]
          exact ⟨next, Nat.lt_succ_self next, by dsimp only [row]⟩

/-- Logs that are refused are refused in the same words, whatever the cause. -/
theorem insertLogs_refused {error : SyncError}
    (refused : (insertLogs key next logs).run transaction = .error error ended) :
    error = .storage unspecified := by
  induction logs generalizing next transaction with
  | nil => cases refused
  | cons log rest induction =>
      rw [insertLogs, EStateM.run_bind] at refused
      cases inserted : (insertLog key next log).run transaction with
      | ok _ between =>
          rw [inserted] at refused
          exact induction refused
      | error cause between =>
          rw [inserted] at refused
          cases refused
          exact insertLog_refused inserted

end Statements

/-! ## Events -/

/-- What a cut leaves of the tables. -/
def cut (store : TableStore) (key : String) : Option Nat → TableStore
  | none => store
  | some length => store.deleteFrom key length

/-- The index of the first log that is added behind a cut. -/
def nextIndex (store : TableStore) (key : String) : Option Nat → Nat
  | none => store.logCount key
  | some length => length

/-- The tables after an event. -/
def withEvent (store : TableStore) (key : String) (event : Event) : TableStore :=
  ((store.cut key event.truncateTo).addRows
    (newRows key (store.nextIndex key event.truncateTo) event.added)).updateEntry key fun row =>
      { row with lastBlockText := some event.block.encode.print }

theorem run_truncate (length : Nat) (transaction : Transaction) :
    (Statements.truncate key (some length)).run transaction =
      if transaction.pending.logCount key < length then
        .error (Entry.truncationError (transaction.pending.logCount key) length) transaction
      else .ok length { transaction with pending := transaction.pending.deleteFrom key length } := by
  change EStateM.run (if transaction.pending.logCount key < length then throw _ else _) _ = _
  split <;> rfl

theorem run_truncate_eq_ok {transaction ended : Transaction} {truncateTo : Option Nat} {index : Nat} :
    (Statements.truncate key truncateTo).run transaction = .ok index ended ↔
      (∀ length ∈ truncateTo, length ≤ transaction.pending.logCount key) ∧
        index = transaction.pending.nextIndex key truncateTo ∧
        ended = { transaction with pending := transaction.pending.cut key truncateTo } := by
  cases truncateTo with
  | none =>
      constructor
      · intro truncated
        cases truncated
        exact ⟨nofun, rfl, rfl⟩
      · rintro ⟨-, rfl, rfl⟩
        rfl
  | some length =>
      rw [run_truncate]
      split
      case isTrue beyond => exact ⟨nofun, fun within => absurd beyond (Nat.not_lt.mpr (within.1 _ rfl))⟩
      case isFalse within =>
        constructor
        · intro truncated
          cases truncated
          refine ⟨?_, rfl, rfl⟩
          rintro _ ⟨⟩
          exact Nat.not_lt.mp within
        · rintro ⟨-, rfl, rfl⟩
          rfl

theorem run_updateBlock {transaction : Transaction} {block : Block} :
    (Statements.execute fun store => do
      let blockText ← writeColumn Block.encode Block.InRange block
      return store.updateEntry key fun row =>
        { row with lastBlockText := some blockText }).run transaction =
      if block.InRange then .ok () { transaction with
        pending := transaction.pending.updateEntry key fun row =>
          { row with lastBlockText := some block.encode.print } }
      else .error (.storage unspecified) transaction := by
  rw [Statements.run_execute, writeColumn]
  by_cases inRange : block.InRange
  · rw [if_pos inRange, if_pos inRange]
    rfl
  · rw [if_neg inRange, if_neg inRange]
    rfl

theorem run_ofEvent_eq_ok {transaction ended : Transaction} {event : Event} :
    (Statements.ofEvent key event).run transaction = .ok () ended ↔
      event.block.InRange ∧
      (∀ length ∈ event.truncateTo, length ≤ transaction.pending.logCount key) ∧
      ∃ between, (Statements.insertLogs key (transaction.pending.nextIndex key event.truncateTo)
          event.added).run { transaction with
            pending := transaction.pending.cut key event.truncateTo } = .ok () between ∧
        ended = { between with pending := between.pending.updateEntry key fun row =>
          { row with lastBlockText := some event.block.encode.print } } := by
  rw [Statements.ofEvent, EStateM.run_bind]
  cases truncated : (Statements.truncate key event.truncateTo).run transaction with
  | error error between =>
      refine ⟨nofun, fun applied => ?_⟩
      have isRun := run_truncate_eq_ok.mpr ⟨applied.2.1, rfl, rfl⟩
      cases truncated.symm.trans isRun
  | ok index between =>
      rcases run_truncate_eq_ok.mp truncated with ⟨within, rfl, rfl⟩
      dsimp only
      rw [EStateM.run_bind]
      cases inserted : (Statements.insertLogs key _ event.added).run _ with
      | error error between =>
          constructor
          · intro applied
            cases applied
          · rintro ⟨-, -, between, isOk, -⟩
            cases isOk
      | ok _ between =>
          dsimp only
          rw [run_updateBlock]
          split
          case isTrue inRange =>
            constructor
            · intro applied
              cases applied
              exact ⟨inRange, within, between, rfl, rfl⟩
            · rintro ⟨-, -, _, ⟨⟩, rfl⟩
              rfl
          case isFalse outside =>
            exact ⟨nofun, fun applied => absurd applied.1 outside⟩

theorem made_transact {statements : Statements Unit} :
    (store.transact statements).made =
      match statements.run { committed := store, pending := store } with
      | .ok _ ended => .ok ended.pending
      | .error error _ => .error error := by
  rw [transact]
  cases statements.run { committed := store, pending := store } <;> rfl

/-- An event is applied through an open connection as one transaction. -/
theorem apply_eq_ok {event : Event} : LogStore.apply store key event = .ok after ↔
    store.connected = .ok () ∧ event.block.InRange ∧
      (∀ length ∈ event.truncateTo, length ≤ store.logCount key) ∧
      ∃ between, (Statements.insertLogs key (store.nextIndex key event.truncateTo) event.added).run
          { committed := store, pending := store.cut key event.truncateTo } = .ok () between ∧
        after = between.pending.updateEntry key fun row =>
          { row with lastBlockText := some event.block.encode.print } := by
  change (store.applyEvent key event).made = .ok after ↔ _
  rw [applyEvent]
  cases isConnected : store.connected with
  | error error =>
      constructor
      · intro applied
        cases applied
      · intro applied
        cases applied.1
  | ok _ =>
      change (store.transact (.ofEvent key event)).made = .ok after ↔ _
      rw [made_transact]
      constructor
      · intro applied
        split at applied
        case h_1 ended ran =>
          rcases run_ofEvent_eq_ok.mp ran with ⟨inRange, within, between, inserted, rfl⟩
          exact ⟨rfl, inRange, within, between, inserted, (Except.ok.inj applied).symm⟩
        case h_2 => cases applied
      · rintro ⟨-, inRange, within, between, inserted, rfl⟩
        rw [run_ofEvent_eq_ok.mpr ⟨inRange, within, between, inserted, rfl⟩]

/-- An event that cuts within the logs is refused for its rows only. -/
theorem apply_refused {event : Event} {error : SyncError} (isConnected : store.connected = .ok ())
    (within : ∀ length ∈ event.truncateTo, length ≤ store.logCount key)
    (refused : LogStore.apply store key event = .error error) : error = .storage unspecified := by
  change (store.applyEvent key event).made = .error error at refused
  rw [applyEvent, isConnected] at refused
  change (store.transact (.ofEvent key event)).made = .error error at refused
  rw [made_transact, Statements.ofEvent, EStateM.run_bind,
    run_truncate_eq_ok.mpr ⟨within, rfl, rfl⟩] at refused
  dsimp only at refused
  rw [EStateM.run_bind] at refused
  cases inserted : (Statements.insertLogs key (store.nextIndex key event.truncateTo)
      event.added).run { committed := store, pending := store.cut key event.truncateTo } with
  | ok _ between =>
      rw [inserted] at refused
      dsimp only at refused
      rw [run_updateBlock] at refused
      by_cases inRange : event.block.InRange
      · rw [if_pos inRange] at refused
        cases refused
      · rw [if_neg inRange] at refused
        exact (Except.error.inj refused).symm
  | error cause between =>
      rw [inserted] at refused
      cases refused
      exact Statements.insertLogs_refused inserted

/-- What an event that was applied has changed. -/
theorem of_apply_eq_ok {event : Event} (applied : LogStore.apply store key event = .ok after) :
    store.connected = .ok () ∧ event.InRange ∧
      (∀ length ∈ event.truncateTo, length ≤ store.logCount key) ∧
      (event.added = [] ∨
        (store.cut key event.truncateTo).logCount key + event.added.length ≤ rowLimit) ∧
      after = store.withEvent key event := by
  rcases apply_eq_ok.mp applied with ⟨isConnected, inRange, within, between, inserted, rfl⟩
  rcases Statements.of_run_insertLogs inserted with ⟨added, room, rfl⟩
  exact ⟨isConnected, ⟨added, inRange⟩, within, room, rfl⟩

end TableStore

end ReorgSync
