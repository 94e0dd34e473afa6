import Mathlib.Data.List.Forall2
import Mathlib.Data.List.Nodup
import ReorgSync.Proofs.Codec.Values
import ReorgSync.Store.Rows

namespace ReorgSync.TableStore

/-! The rows of a sequence of logs: one for each log, with the numbers from zero on. They
can be counted, cut, found by their numbers and read back, as long as all numbers of the
rows are the same in a signed column. -/

/-! ## Columns -/

/-- So many logs have numbers that are the same in a signed column. -/
def columnLimit : Nat := Word.size 63

theorem columnLimit_eq : columnLimit = 9223372036854775808 := by decide

theorem size_eq : Word.size 64 = 18446744073709551616 := by decide

theorem columnLimit_lt : columnLimit < Word.size 64 := by
  rw [columnLimit_eq, size_eq]
  omega

theorem toColumn_eq {value : Nat} (small : value < columnLimit) : toColumn value = value := by
  rw [columnLimit_eq] at small
  rw [toColumn, size_eq]
  exact Int.bmod_eq_of_le (by omega) (by omega)

theorem ofColumn_toColumn {value : Nat} (fits : value < Word.size 64) :
    ofColumn (toColumn value) = value := by
  rw [ofColumn, toColumn, Int.bmod_emod, Int.emod_eq_of_lt (Int.natCast_nonneg value)
    (Int.ofNat_lt.mpr fits), Int.toNat_natCast]

/-- A column keeps what is left of a number in 64 bits. -/
theorem toColumn_mod (value : Nat) : toColumn (value % Word.size 64) = toColumn value := by
  rw [toColumn, toColumn]
  generalize Word.size 64 = size
  rw [Int.natCast_emod, Int.emod_bmod]

theorem toColumn_injective {left right : Nat} (leftFits : left < Word.size 64)
    (rightFits : right < Word.size 64) (same : toColumn left = toColumn right) :
    left = right := by
  rw [← ofColumn_toColumn leftFits, same, ofColumn_toColumn rightFits]

theorem readColumn_log {log : Log} (inRange : log.InRange) :
    readColumn Log.decoder log.encode.print = .ok log := by
  rw [readColumn, Log.ofText_print inRange]

theorem readColumn_block {block : Block} (inRange : block.InRange) :
    readColumn Block.decoder block.encode.print = .ok block := by
  rw [readColumn, Block.ofText_print inRange]

/-- Only values in range are written. -/
theorem writeColumn_eq_ok {encode : α → Json} {inRange : α → Prop} [DecidablePred inRange] {value : α}
    {text : String} : writeColumn encode inRange value = .ok text ↔
      inRange value ∧ text = (encode value).print := by
  rw [writeColumn]
  split
  case isTrue fits => exact ⟨fun same => ⟨fits, (Except.ok.inj same).symm⟩, fun written => by rw [written.2]⟩
  case isFalse outside => exact ⟨nofun, fun written => absurd written.1 outside⟩

/-! ## Rows -/

/-- The rows of logs whose indices begin at a number. -/
def newRows (key : String) (next : Nat) : List Log → List LogRow
  | [] => []
  | log :: rest => ⟨key, toColumn next, log.encode.print⟩ :: newRows key (next + 1) rest

theorem newRows_append (key : String) (next : Nat) (front back : List Log) :
    newRows key next (front ++ back) =
      newRows key next front ++ newRows key (next + front.length) back := by
  induction front generalizing next with
  | nil => rfl
  | cons log rest induction =>
      rw [List.cons_append, newRows, newRows, induction, List.cons_append, List.length_cons,
        Nat.add_assoc, Nat.add_comm 1]

@[simp] theorem length_newRows (key : String) (next : Nat) (logs : List Log) :
    (newRows key next logs).length = logs.length := by
  induction logs generalizing next with
  | nil => rfl
  | cons log rest induction => rw [newRows, List.length_cons, induction, List.length_cons]

/-- Rows of one entry have its key, and numbers from a number on. -/
theorem mem_newRows {key : String} {next : Nat} {logs : List Log} {row : LogRow}
    (isRow : row ∈ newRows key next logs) :
    row.fingerprint = key ∧ ∃ place, next ≤ place ∧ place < next + logs.length ∧
      row.index = toColumn place := by
  induction logs generalizing next with
  | nil => cases isRow
  | cons log rest induction =>
      rw [newRows] at isRow
      rw [List.length_cons]
      rcases List.mem_cons.mp isRow with rfl | later
      · exact ⟨rfl, next, Nat.le_refl _, by omega, by dsimp only⟩
      · rcases induction later with ⟨own, place, lower, upper, number⟩
        exact ⟨own, place, by omega, by omega, number⟩

theorem filter_newRows_own (key : String) (next : Nat) (logs : List Log) :
    (newRows key next logs).filter (·.fingerprint == key) = newRows key next logs := by
  apply List.filter_eq_self.mpr
  intro row isRow
  exact beq_iff_eq.mpr (mem_newRows isRow).1

theorem filter_newRows_other {key other : String} (apart : key ≠ other) (next : Nat)
    (logs : List Log) : (newRows key next logs).filter (·.fingerprint == other) = [] := by
  apply List.filter_eq_nil_iff.mpr
  intro row isRow
  rw [(mem_newRows isRow).1]
  simpa using apart

/-- A cut takes away the rows from a number on. -/
theorem filter_newRows_below (key : String) {logs : List Log} (small : logs.length < columnLimit)
    {length : Nat} (within : length ≤ logs.length) :
    (newRows key 0 logs).filter (fun row => !decide (toColumn length ≤ row.index)) =
      newRows key 0 (logs.take length) := by
  have rows := newRows_append key 0 (logs.take length) (logs.drop length)
  rw [List.take_append_drop, Nat.zero_add, List.length_take_of_le within] at rows
  have kept : (newRows key 0 (logs.take length)).filter
      (fun row => !decide (toColumn length ≤ row.index)) = newRows key 0 (logs.take length) := by
    apply List.filter_eq_self.mpr
    intro row isRow
    rcases mem_newRows isRow with ⟨-, place, -, below, number⟩
    rw [List.length_take_of_le within] at below
    rw [number, toColumn_eq (by omega), toColumn_eq (by omega)]
    simpa using below
  have cut : (newRows key length (logs.drop length)).filter
      (fun row => !decide (toColumn length ≤ row.index)) = [] := by
    apply List.filter_eq_nil_iff.mpr
    intro row isRow
    rcases mem_newRows isRow with ⟨-, place, behind, below, number⟩
    rw [List.length_drop] at below
    rw [number, toColumn_eq (by omega), toColumn_eq (by omega)]
    simpa using behind
  rw [rows, List.filter_append, kept, cut, List.append_nil]

/-- The rows are in the order of their numbers. -/
theorem pairwise_newRows (key : String) {next : Nat} {logs : List Log}
    (small : next + logs.length < columnLimit) :
    (newRows key next logs).Pairwise fun left right => left.index ≤ right.index := by
  induction logs generalizing next with
  | nil => exact List.Pairwise.nil
  | cons log rest induction =>
      rw [List.length_cons] at small
      refine List.pairwise_cons.mpr ⟨fun row isRow => ?_, induction (by omega)⟩
      rcases mem_newRows isRow with ⟨-, place, behind, below, number⟩
      rw [number, toColumn_eq (by omega), toColumn_eq (by omega)]
      exact Int.ofNat_le.mpr (Nat.le_of_lt behind)

/-- A row is found by its number. -/
theorem find?_newRows (key : String) {next : Nat} {logs : List Log}
    (small : next + logs.length < columnLimit) {index : Nat} (fits : index < Word.size 64)
    (behind : next ≤ index) :
    (newRows key next logs).find? (·.index == toColumn index) =
      (logs[index - next]?).map fun log => ⟨key, toColumn index, log.encode.print⟩ := by
  induction logs generalizing next with
  | nil => rfl
  | cons log rest induction =>
      rw [List.length_cons] at small
      rw [newRows]
      rcases Nat.eq_or_lt_of_le behind with rfl | later
      · generalize toColumn next = column
        simp
      · have isColumn : next < columnLimit := by omega
        -- The number that is looked for may be negative as a column, but it is not this one.
        have differs : toColumn next ≠ toColumn index := fun same =>
          Nat.ne_of_lt later (toColumn_injective (Nat.lt_trans isColumn columnLimit_lt) fits same)
        have place : index - next = index - (next + 1) + 1 := by omega
        rw [place, List.getElem?_cons_succ, ← induction (by omega) later]
        generalize toColumn next = column at differs
        exact List.find?_cons_of_neg (by simpa using differs)

/-- The rows are read back as the logs. -/
theorem readRows_newRows (key : String) (next : Nat) {logs : List Log}
    (inRange : ∀ log ∈ logs, log.InRange) : readRows (newRows key next logs) = .ok logs := by
  induction logs generalizing next with
  | nil => rfl
  | cons log rest induction =>
      have others := induction (next + 1) fun other isOther =>
        inRange other (List.mem_cons_of_mem _ isOther)
      rw [newRows, readRows, readColumn_log (inRange log List.mem_cons_self), others]
      rfl

end ReorgSync.TableStore
