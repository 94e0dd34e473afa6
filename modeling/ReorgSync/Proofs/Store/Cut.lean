import Mathlib.Tactic.Choose
import ReorgSync.Proofs.Store.Faithful
import ReorgSync.Sync.Position

namespace ReorgSync

/-! Where an entry is cut when logs are taken back: in front of all that lie at a height or
above it, back to the first log from behind that does not. A cut looks at heights alone,
so logs of different branches at one height go together. -/

/-! ## Entries that can be read -/

namespace EntryStore

variable {ε : Type} [EntryStore ε] {entry : ε} {logs : List Log}

/-- Every log of an entry can be read by its index. -/
structure Holds (entry : ε) (logs : List Log) : Prop where
  lastIndex : EntryStore.lastIndex entry = .ok logs.length
  log? : ∀ index (within : index < logs.length),
    EntryStore.log? entry index = .ok (some logs[index])

theorem Holds.exists_log? (holds : Holds entry logs) (index : Nat) (within : index < logs.length) :
    ∃ log, EntryStore.log? entry index = .ok (some log) :=
  ⟨logs[index], holds.log? index within⟩

theorem exists_holds {count : Nat} (isCount : EntryStore.lastIndex entry = .ok count)
    (complete : ∀ index < count, ∃ log, EntryStore.log? entry index = .ok (some log)) :
    ∃ logs, Holds entry logs ∧ logs.length = count := by
  choose logAt isLog using complete
  refine ⟨List.ofFn fun index : Fin count => logAt index index.isLt, ⟨?_, ?_⟩, List.length_ofFn⟩
  · rw [isCount, List.length_ofFn]
  · intro index within
    rw [List.getElem_ofFn]
    exact isLog index _

theorem Holds.logsFrom (holds : Holds entry logs) {count index : Nat}
    (whole : index + count = logs.length) : logsFrom entry count index = .ok (logs.drop index) := by
  induction count generalizing index with
  | zero =>
      have atEnd : logs.length ≤ index := Nat.le_of_eq whole.symm
      rw [EntryStore.logsFrom, List.drop_of_length_le atEnd]
  | succ count induction =>
      have within : index < logs.length := by omega
      rw [EntryStore.logsFrom, holds.log? index within, List.drop_eq_getElem_cons within]
      have rest := @induction (index + 1) (by omega)
      simp only [bind, Except.bind, rest]
      rfl

theorem Holds.logsByIndex (holds : Holds entry logs) : logsByIndex entry = .ok logs := by
  rw [EntryStore.logsByIndex, holds.lastIndex]
  exact holds.logsFrom (Nat.zero_add _)

end EntryStore

/-- An entry in memory can always be read. -/
theorem Entry.holds_logs (entry : Entry) : EntryStore.Holds entry entry.logs where
  lastIndex := rfl
  log? _ within := congrArg Except.ok (List.getElem?_eq_getElem within)

/-! ## The cut -/

/-- Logs are cut at a height: all that is behind the cut is there or above, and what is right
in front of it lies below. -/
structure IsCut (height : Nat) (logs : List Log) (cut : Nat) (removed : List Log) : Prop where
  within : cut ≤ logs.length
  behind : removed = logs.drop cut
  above : ∀ log ∈ removed, height ≤ log.blockNumber
  below : cut = 0 ∨ ∃ log, logs[cut - 1]? = some log ∧ log.blockNumber < height

/-- Logs in the order of their heights; there may be several at one height. -/
def InOrder (logs : List Log) : Prop :=
  logs.Pairwise fun earlier later => earlier.blockNumber ≤ later.blockNumber

namespace IsCut

variable {height cut : Nat} {logs removed : List Log}

/-- Where logs are in order, all in front of a cut lie below the height. -/
theorem below_of_mem_take (isCut : IsCut height logs cut removed) (inOrder : InOrder logs)
    {log : Log} (member : log ∈ logs.take cut) : log.blockNumber < height := by
  rcases List.mem_take_iff_getElem.mp member with ⟨index, within, rfl⟩
  rcases isCut.below with isZero | ⟨newest, isNewest, below⟩
  · omega
  · rcases List.getElem?_eq_some_iff.mp isNewest with ⟨isWithin, rfl⟩
    rcases Nat.lt_or_ge index (cut - 1) with earlier | last
    · have ordered := List.pairwise_iff_getElem.mp inOrder index (cut - 1) (by omega) isWithin
        earlier
      omega
    · have isLast : index = cut - 1 := by omega
      subst isLast
      exact below

/-- Between logs below the height and logs that are not, there is one place to cut. -/
theorem eq_of_append {lower upper : List Log} (isCut : IsCut height (lower ++ upper) cut removed)
    (below : ∀ log ∈ lower, log.blockNumber < height)
    (above : ∀ log ∈ upper, height ≤ log.blockNumber) : cut = lower.length ∧ removed = upper := by
  have notEarlier : ¬ cut < lower.length := by
    intro earlier
    have inFront : lower[cut] ∈ removed := by
      rw [isCut.behind, List.drop_append_of_le_length (Nat.le_of_lt earlier),
        List.drop_eq_getElem_cons earlier]
      exact List.mem_cons_self
    exact Nat.not_lt.mpr (isCut.above _ inFront) (below _ (List.getElem_mem earlier))
  have notLater : ¬ lower.length < cut := by
    intro later
    rcases isCut.below with isZero | ⟨newest, isNewest, isBelow⟩
    · omega
    · rw [List.getElem?_append_right (by omega)] at isNewest
      exact Nat.not_lt.mpr (above newest (List.mem_of_getElem? isNewest)) isBelow
  have isEnd : cut = lower.length := by omega
  refine ⟨isEnd, ?_⟩
  rw [isCut.behind, isEnd, List.drop_left]

theorem take_eq_filter (isCut : IsCut height logs cut removed) (inOrder : InOrder logs) :
    logs.take cut = logs.filter fun log => decide (log.blockNumber < height) := by
  have front : (logs.take cut).filter (fun log => decide (log.blockNumber < height)) =
      logs.take cut := by
    rw [List.filter_eq_self]
    intro log member
    exact decide_eq_true (isCut.below_of_mem_take inOrder member)
  have back : (logs.drop cut).filter (fun log => decide (log.blockNumber < height)) = [] := by
    rw [← isCut.behind, List.filter_eq_nil_iff]
    intro log member isBelow
    exact Nat.not_lt.mpr (isCut.above log member) (of_decide_eq_true isBelow)
  calc logs.take cut
    _ = (logs.take cut ++ logs.drop cut).filter _ := by
      rw [List.filter_append, front, back, List.append_nil]
    _ = logs.filter _ := by rw [List.take_append_drop]

theorem eq_countP (isCut : IsCut height logs cut removed) (inOrder : InOrder logs) :
    cut = logs.countP fun log => decide (log.blockNumber < height) := by
  rw [List.countP_eq_length_filter, ← isCut.take_eq_filter inOrder, List.length_take,
    Nat.min_eq_left isCut.within]

end IsCut

/-! ## The scan -/

namespace Session

open EntryStore (Holds)

variable {ε : Type} [EntryStore ε] {entry : ε} {logs : List Log}

/-- A scan from in front of logs that lie at a height or above it goes on until it finds a
cut. -/
theorem exists_isCut_scanBack (height : Nat) (holds : Holds entry logs) {index : Nat}
    {removed : List Log} (within : index ≤ logs.length) (behind : removed = logs.drop index)
    (above : ∀ log ∈ removed, height ≤ log.blockNumber) :
    ∃ cut taken, scanBack entry height index removed = .ok (cut, taken) ∧
      IsCut height logs cut taken := by
  induction index generalizing removed with
  | zero => exact ⟨0, removed, rfl, within, behind, above, .inl rfl⟩
  | succ index induction =>
      rw [scanBack, holds.log? index within]
      simp only [bind, Except.bind]
      split
      case isTrue below =>
        have isNewest : logs[index + 1 - 1]? = some logs[index] := List.getElem?_eq_getElem within
        exact ⟨index + 1, removed, rfl, within, behind, above, .inr ⟨_, isNewest, below⟩⟩
      case isFalse notBelow =>
        apply induction (Nat.le_of_succ_le within)
        · rw [behind, ← List.drop_eq_getElem_cons within]
        · intro log member
          rcases List.mem_cons.mp member with rfl | member
          · exact Nat.le_of_not_lt notBelow
          · exact above log member

theorem exists_isCut_rollbackPoint (height : Nat) (holds : Holds entry logs) :
    ∃ cut removed, rollbackPoint height entry = .ok (cut, removed) ∧
      IsCut height logs cut removed := by
  have nothing : [] = logs.drop logs.length := List.drop_length.symm
  rcases exists_isCut_scanBack height holds (Nat.le_refl _) nothing nofun with
    ⟨cut, removed, found, isCut⟩
  refine ⟨cut, removed, ?_, isCut⟩
  rw [rollbackPoint, holds.lastIndex]
  exact found

/-- Whatever an entry holds, its rollback to a height answers the one cut there, with the logs
behind it as they were stored. Where the logs are in order, an event with that cut leaves
exactly those below the height, and adds its own. -/
theorem rollbackPoint_cuts {count : Nat} (height : Nat)
    (isCount : EntryStore.lastIndex entry = .ok count)
    (complete : ∀ index < count, ∃ log, EntryStore.log? entry index = .ok (some log)) :
    ∃ logs cut removed, EntryStore.logsByIndex entry = .ok logs ∧ logs.length = count ∧
      rollbackPoint height entry = .ok (cut, removed) ∧ IsCut height logs cut removed ∧
      (InOrder logs →
        cut = logs.countP (fun log => decide (log.blockNumber < height)) ∧
        ∀ (ledger : Ledger) (event : Event), ledger.logs = logs → event.truncateTo = some cut →
          (ledger.follow event).logs =
            logs.filter (fun log => decide (log.blockNumber < height)) ++ event.added) := by
  rcases EntryStore.exists_holds isCount complete with ⟨logs, holds, rfl⟩
  rcases exists_isCut_rollbackPoint height holds with ⟨cut, removed, found, isCut⟩
  refine ⟨logs, cut, removed, holds.logsByIndex, rfl, found, isCut, ?_⟩
  intro inOrder
  refine ⟨isCut.eq_countP inOrder, ?_⟩
  intro ledger event isLedger cuts
  rw [Ledger.follow, cuts, isLedger, ← isCut.take_eq_filter inOrder]

end Session

/-! ## Two branches at one height -/

/-- Logs of two branches, as they never are on one chain. -/
def Entry.mixed : Entry where
  logs := [(1, "root"), (2, "left"), (2, "right"), (3, "right")].map fun (height, hash) =>
    { address := "contract", topics := [], data := "", blockNumber := height, blockHash := hash,
      transactionHash := "", transactionIndex := 0 }

namespace Session

theorem rollbackPoint_cuts_mixed :
    EntryStore.lastIndex Entry.mixed = .ok 4 ∧
      (∀ index < 4, ∃ log, EntryStore.log? Entry.mixed index = .ok (some log)) ∧
      InOrder Entry.mixed.logs ∧
      ∃ removed, rollbackPoint 2 Entry.mixed = .ok (1, removed) ∧
        IsCut 2 Entry.mixed.logs 1 removed := by
  have isCount : EntryStore.lastIndex Entry.mixed = .ok 4 := rfl
  have complete : ∀ index < 4, ∃ log, EntryStore.log? Entry.mixed index = .ok (some log) :=
    Entry.mixed.holds_logs.exists_log?
  have inOrder : InOrder Entry.mixed.logs := by
    rw [InOrder]
    decide
  rcases rollbackPoint_cuts 2 isCount complete with
    ⟨logs, cut, removed, read, -, found, isCut, sorted⟩
  have same : Entry.mixed.logs = logs := Except.ok.inj read
  subst same
  have one : cut = 1 := (sorted inOrder).1
  subst one
  exact ⟨isCount, complete, inOrder, removed, found, isCut⟩

end Session

end ReorgSync
