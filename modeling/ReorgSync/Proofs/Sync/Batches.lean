import ReorgSync.Proofs.Sync.Jobs

namespace ReorgSync

/-! A backfill hears of the canonical chain three times for each range that it
stores: when the range is answered, when the block that ends the range is looked up,
and when that block is looked up again in front of the next range. The chain may be
another one each time. What is stored is accounted for here by these three moments,
however the head moves. -/

/-! ## Batches -/

/-- One range of a backfill: what is asked for it, and the heads at the answers. -/
structure Batch where
  first : Nat
  final : Nat
  /-- The head when the logs of the range were given. -/
  ranged : Block
  /-- The block that was given for the last height of the range. -/
  block : Block
  /-- The head when that block was given. -/
  named : Block
  /-- What was given for that height when it was asked for again. -/
  found : Option Block
  /-- The head at that time. -/
  checked : Block

namespace Batch

variable {tree : BlockTree} {filter : Filter} {batch : Batch} {head : Block}

/-- What is noted until a batch is stored. -/
def fetched (batch : Batch) : List Note :=
  Note.ofRange batch.first batch.final batch.ranged batch.block batch.named

def notes (batch : Batch) : List Note :=
  batch.fetched ++ [.block batch.final batch.found batch.checked]

/-- The logs that the chain below a head has in the range of a batch. -/
def logsOn (batch : Batch) (tree : BlockTree) (filter : Filter) (head : Block) : List Log :=
  tree.logsAlong filter ((tree.path head).filter fun block =>
    decide (batch.first ≤ block.number ∧ block.number ≤ batch.final))

/-- Logs that all lie in the range of a batch. -/
def Holds (batch : Batch) (logs : List Log) : Prop :=
  ∀ log ∈ logs, batch.first ≤ log.blockNumber ∧ log.blockNumber ≤ batch.final

/-- What the answers say that a batch is stored with. -/
structure IsFetched (batch : Batch) (tree : BlockTree) : Prop where
  ordered : batch.first ≤ batch.final
  ranged : tree.Contains batch.ranged
  named : tree.Contains batch.named
  names : (tree.path batch.named)[batch.final]? = some batch.block

/-- What the answer says that a batch is checked with. -/
structure IsChecked (batch : Batch) (tree : BlockTree) : Prop where
  checked : tree.Contains batch.checked
  finds : ∀ block, batch.found = some block → (tree.path batch.checked)[batch.final]? = some block

/-- The block of a batch was canonical when it was checked. -/
def IsConfirmed (batch : Batch) (tree : BlockTree) : Prop :=
  batch.IsChecked tree ∧ batch.found = some batch.block

theorem IsFetched.contains (isFetched : batch.IsFetched tree) :
    tree.Contains batch.block ∧ batch.block.number = batch.final := by
  have onPath := BlockTree.path_of_getElem? isFetched.named isFetched.names
  exact ⟨onPath.1, onPath.2.1⟩

/-! ### Batches in a row -/

/-- Batches that cover all heights from one on and below another, each height once. -/
def Tiles : Nat → List Batch → Nat → Prop
  | start, [], stop => start = stop
  | start, batch :: rest, stop =>
      batch.first = start ∧ batch.first ≤ batch.final ∧ Tiles (batch.final + 1) rest stop

variable {batches : List Batch} {start stop : Nat}

theorem tiles_concat :
    Tiles start (batches ++ [batch]) stop ↔
      Tiles start batches batch.first ∧ batch.first ≤ batch.final ∧ batch.final + 1 = stop := by
  induction batches generalizing start with
  | nil => simp only [List.nil_append, Tiles, eq_comm]
  | cons earlier rest induction => simp only [List.cons_append, Tiles, induction, and_assoc]

theorem Tiles.le_first (tiles : Tiles start batches stop) (member : batch ∈ batches) :
    start ≤ batch.first := by
  induction batches generalizing start with
  | nil => cases member
  | cons first rest induction =>
      rcases tiles with ⟨rfl, ordered, behind⟩
      rcases List.mem_cons.mp member with rfl | member
      · exact Nat.le_refl _
      · have := induction behind member
        omega

/-- Along one chain, batches in a row have the logs of all heights they cover. -/
theorem Tiles.flatMap_logsOn (filter : Filter) (tiles : Tiles start batches stop)
    (contains : tree.Contains head) :
    tree.logsAlong filter ((tree.path head).take start) ++
        batches.flatMap (fun batch => batch.logsOn tree filter head) =
      tree.logsAlong filter ((tree.path head).take stop) := by
  induction batches generalizing start with
  | nil =>
      rw [show start = stop from tiles]
      exact List.append_nil _
  | cons batch rest induction =>
      rcases tiles with ⟨rfl, ordered, behind⟩
      rw [List.flatMap_cons, ← List.append_assoc, ← induction behind, logsOn,
        ← BlockTree.logsAlong_append, BlockTree.take_append_range contains ordered]

/-- Among the logs of batches in a row, those of one batch are told by their heights. -/
theorem Tiles.filter_flatMap {logs : Batch → List Log} (tiles : Tiles start batches stop)
    (within : ∀ batch ∈ batches, batch.Holds (logs batch)) (member : batch ∈ batches) :
    (batches.flatMap logs).filter (fun log =>
      decide (batch.first ≤ log.blockNumber ∧ log.blockNumber ≤ batch.final)) = logs batch := by
  induction batches generalizing start with
  | nil => cases member
  | cons first rest induction =>
      rcases tiles with ⟨rfl, ordered, behind⟩
      have withinFirst := within first List.mem_cons_self
      have withinRest : ∀ next ∈ rest, next.Holds (logs next) :=
        fun next isNext => within next (List.mem_cons_of_mem first isNext)
      rw [List.flatMap_cons, List.filter_append]
      rcases List.mem_cons.mp member with rfl | member
      · rw [List.filter_eq_self.mpr, List.filter_eq_nil_iff.mpr, List.append_nil]
        · intro log isLog
          rcases List.mem_flatMap.mp isLog with ⟨next, isNext, isLog⟩
          have := behind.le_first isNext
          have := withinRest next isNext log isLog
          simp only [decide_eq_true_eq]
          omega
        · exact fun log isLog => decide_eq_true (withinFirst log isLog)
      · rw [induction behind withinRest member, List.filter_eq_nil_iff.mpr, List.nil_append]
        intro log isLog
        have := behind.le_first member
        have := withinFirst log isLog
        simp only [decide_eq_true_eq]
        omega

theorem Tiles.flatMap_inj {logs other : Batch → List Log} (tiles : Tiles start batches stop)
    (within : ∀ batch ∈ batches, batch.Holds (logs batch))
    (otherWithin : ∀ batch ∈ batches, batch.Holds (other batch)) :
    batches.flatMap logs = batches.flatMap other ↔ ∀ batch ∈ batches, logs batch = other batch := by
  constructor
  · intro same batch member
    rw [← tiles.filter_flatMap within member, same, tiles.filter_flatMap otherWithin member]
  · exact List.flatMap_congr

/-- The block of each batch is on the chain that answered its range, and on the chain
that answered the range behind it. -/
structure Undisturbed (tree : BlockTree) (batches : List Batch) : Prop where
  own : ∀ batch ∈ batches, batch.block ∈ tree.path batch.ranged
  next : batches.IsChain fun batch next => batch.block ∈ tree.path next.ranged

/-- Batches that were not disturbed bring the logs of one path. -/
theorem Undisturbed.flatMap_logsOn (undisturbed : Undisturbed tree batches)
    (fetched : ∀ batch ∈ batches, batch.IsFetched tree) (tiles : Tiles 0 batches stop) :
    ∀ last ∈ batches.getLast?,
      (batches.flatMap fun batch => batch.logsOn tree filter batch.ranged) =
        tree.logsAlong filter (tree.path last.block) := by
  induction batches using List.reverseRecOn generalizing stop with
  | nil => exact fun _ isLast => (Option.not_mem_none _ isLast).elim
  | append_singleton batches batch induction =>
      rcases tiles_concat.mp tiles with ⟨earlier, ordered, -⟩
      rcases List.isChain_append.mp undisturbed.next with ⟨chain, -, joined⟩
      have isFetched := fetched batch (by simp)
      have inFront : (batches.flatMap fun batch => batch.logsOn tree filter batch.ranged) =
          tree.logsAlong filter ((tree.path batch.ranged).take batch.first) := by
        cases isLast : batches.getLast? with
        | none =>
            rw [List.getLast?_eq_none_iff] at isLast
            subst isLast
            rw [← show 0 = batch.first from earlier]
            rfl
        | some last =>
            have lastFetched := fetched last (List.mem_append_left _ (List.mem_of_getLast? isLast))
            rcases List.getLast?_eq_some_iff.mp isLast with ⟨front, rfl⟩
            have undisturbedThen : Undisturbed tree (front ++ [last]) :=
              ⟨fun other member => undisturbed.own other (List.mem_append_left _ member), chain⟩
            have fetchedThen : ∀ other ∈ front ++ [last], other.IsFetched tree :=
              fun other member => fetched other (List.mem_append_left _ member)
            rw [induction undisturbedThen fetchedThen earlier last isLast,
              BlockTree.path_of_mem_path isFetched.ranged (joined last isLast batch rfl),
              lastFetched.contains.2, (tiles_concat.mp earlier).2.2]
      intro _ isLast
      rw [List.getLast?_concat, Option.mem_some] at isLast
      subst isLast
      rw [BlockTree.path_of_mem_path isFetched.ranged (undisturbed.own batch (by simp)),
        isFetched.contains.2, ← BlockTree.take_append_range isFetched.ranged ordered,
        BlockTree.logsAlong_append, List.flatMap_append, inFront, List.flatMap_singleton]
      rfl

end Batch

/-! ## What batches leave in an entry -/

open Batch (Tiles)

/-- An entry that holds what some batches brought, and nothing else. -/
structure Account (tree : BlockTree) (filter : Filter) (batches : List Batch) (entry : Entry) :
    Prop where
  fetched : ∀ batch ∈ batches, batch.IsFetched tree
  tiles : Tiles 0 batches (entry.lastBlock.elim 0 (·.number + 1))
  logs : entry.logs = batches.flatMap fun batch => batch.logsOn tree filter batch.ranged
  ends : entry.lastBlock = batches.getLast?.map Batch.block

namespace Account

variable {tree : BlockTree} {filter : Filter} {batches : List Batch} {batch : Batch}
  {entry stored : Entry} {last : Block}

theorem empty (ends : entry.lastBlock = none) (logs : entry.logs = []) :
    Account tree filter [] entry where
  fetched _ member := (List.not_mem_nil member).elim
  tiles := by
    rw [ends]
    exact rfl
  logs := logs
  ends := ends

theorem append (account : Account tree filter batches entry) (isFetched : batch.IsFetched tree)
    (behind : batch.first = entry.lastBlock.elim 0 (·.number + 1))
    (logs : stored.logs = entry.logs ++ batch.logsOn tree filter batch.ranged)
    (ends : stored.lastBlock = some batch.block) :
    Account tree filter (batches ++ [batch]) stored where
  fetched other member := by
    rcases List.mem_append.mp member with member | member
    · exact account.fetched other member
    · rw [List.mem_singleton.mp member]
      exact isFetched
  tiles := by
    rw [Batch.tiles_concat, behind, ends]
    refine ⟨account.tiles, ?_, congrArg (· + 1) isFetched.contains.2.symm⟩
    rw [← behind]
    exact isFetched.ordered
  logs := by
    rw [logs, account.logs, List.flatMap_append, List.flatMap_singleton]
  ends := by
    rw [ends, List.getLast?_concat, Option.map_some]

/-- To check a batch leaves what it brought. -/
theorem check (account : Account tree filter (batches ++ [batch]) entry) (found : Option Block)
    (checked : Block) :
    Account tree filter (batches ++ [{ batch with found, checked }]) entry where
  fetched other member := by
    rcases List.mem_append.mp member with member | member
    · exact account.fetched other (List.mem_append_left _ member)
    · rw [List.mem_singleton.mp member]
      have isFetched := account.fetched batch (by simp)
      exact ⟨isFetched.ordered, isFetched.ranged, isFetched.named, isFetched.names⟩
  tiles := by
    have tiles := Batch.tiles_concat.mp account.tiles
    rw [Batch.tiles_concat]
    exact tiles
  logs := by
    rw [account.logs, List.flatMap_append, List.flatMap_append]
    rfl
  ends := by
    rw [account.ends, List.getLast?_concat, List.getLast?_concat]
    rfl

theorem contains (account : Account tree filter batches entry)
    (isLast : entry.lastBlock = some last) : tree.Contains last := by
  have ends := account.ends
  rw [isLast] at ends
  rcases Option.map_eq_some_iff.mp ends.symm with ⟨batch, isBatch, rfl⟩
  exact (account.fetched batch (List.mem_of_getLast? isBatch)).contains.1

/-- The logs are those of the path exactly if each range was given by a chain that has
the same logs in it. -/
theorem logs_eq_iff (account : Account tree filter batches entry)
    (isLast : entry.lastBlock = some last) :
    entry.logs = tree.logsAlong filter (tree.path last) ↔
      ∀ batch ∈ batches, batch.logsOn tree filter batch.ranged = batch.logsOn tree filter last := by
  have contains := account.contains isLast
  have tiles := account.tiles
  rw [isLast, Option.elim_some] at tiles
  have along : (batches.flatMap fun batch => batch.logsOn tree filter last) =
      tree.logsAlong filter (tree.path last) := by
    have parts := tiles.flatMap_logsOn filter contains
    rw [List.take_of_length_le (Nat.le_of_eq (BlockTree.length_path contains))] at parts
    exact parts
  rw [account.logs, ← along]
  apply tiles.flatMap_inj
  · intro batch member _ isLog
    exact BlockTree.blockNumber_of_mem_range (account.fetched batch member).ranged isLog
  · intro batch _ _ isLog
    exact BlockTree.blockNumber_of_mem_range contains isLog

theorem matches_of_undisturbed (account : Account tree filter batches entry)
    (undisturbed : Batch.Undisturbed tree batches) : entry.Matches tree filter := by
  cases isLast : entry.lastBlock with
  | none =>
      rw [Entry.matches_of_no_lastBlock isLast, account.logs]
      rw [account.ends, Option.map_eq_none_iff, List.getLast?_eq_none_iff] at isLast
      rw [isLast]
      rfl
  | some last =>
      rw [Entry.matches_of_lastBlock isLast, account.logs]
      refine ⟨account.contains isLast, ?_⟩
      rw [account.ends] at isLast
      rcases Option.map_eq_some_iff.mp isLast with ⟨batch, isBatch, rfl⟩
      exact undisturbed.flatMap_logsOn account.fetched account.tiles batch isBatch

end Account

/-! ## What a backfill notes -/

/-- What may be noted of a batch before it is checked. -/
inductive Batch.Begun : List Note → Prop
  | idle : Begun []
  | ranged (first final : Nat) (head : Block) : Begun [.range first final head]
  | named (first final : Nat) (head : Block) (found : Option Block) (named : Block) :
      Begun [.range first final head, .block final found named]

/-- All batches that were checked were confirmed. -/
def Unrefuted (tree : BlockTree) (noted : List Note) : Prop :=
  ∃ (settled : List Batch) (begun : List Note),
    (∀ batch ∈ settled, batch.IsConfirmed tree) ∧ Batch.Begun begun ∧
      noted = settled.flatMap Batch.notes ++ begun

/-- All batches were confirmed, and the entry holds what they brought. -/
structure Confirmed (tree : BlockTree) (filter : Filter) (settled : List Batch) (entry : Entry)
    (noted : List Note) : Prop where
  confirmed : ∀ batch ∈ settled, batch.IsConfirmed tree
  account : Account tree filter settled entry
  noted : noted = settled.flatMap Batch.notes

/-- All batches but the last were confirmed, and another block was found in place of the
last one. The entry holds what they all brought. -/
structure Refuted (tree : BlockTree) (filter : Filter) (settled : List Batch) (batch : Batch)
    (entry : Entry) (noted : List Note) : Prop where
  confirmed : ∀ batch ∈ settled, batch.IsConfirmed tree
  checked : batch.IsChecked tree
  displaced : batch.found ≠ some batch.block
  account : Account tree filter (settled ++ [batch]) entry
  noted : noted = (settled ++ [batch]).flatMap Batch.notes

/-- A backfill goes on behind confirmed batches, or behind one that it has not checked. -/
inductive Backfill.Recalls (tree : BlockTree) (filter : Filter) (state : Backfill) (entry : Entry)
    (noted : List Note) : Prop
  | verified (settled : List Batch) (isVerified : state.isVerified = true)
      (confirmed : Confirmed tree filter settled entry noted)
  | unverified (settled : List Batch) (batch : Batch) (isVerified : state.isVerified = false)
      (confirmed : ∀ batch ∈ settled, batch.IsConfirmed tree)
      (account : Account tree filter (settled ++ [batch]) entry)
      (noted : noted = settled.flatMap Batch.notes ++ batch.fetched)

section

variable {tree : BlockTree} {filter : Filter} {settled : List Batch} {state : Backfill}
  {entry : Entry} {noted : List Note}

theorem Confirmed.unrefuted (confirmed : Confirmed tree filter settled entry noted) :
    Unrefuted tree noted :=
  ⟨settled, [], confirmed.confirmed, .idle, by rw [List.append_nil, confirmed.noted]⟩

theorem Backfill.Recalls.unrefuted (recalls : state.Recalls tree filter entry noted) :
    Unrefuted tree noted := by
  cases recalls with
  | verified settled _ confirmed => exact confirmed.unrefuted
  | unverified settled batch _ confirmed _ noted => exact ⟨settled, _, confirmed, .named .., noted⟩

end

namespace Session

open Routine (Keeps)

variable {tree : BlockTree} {headOf : ω → Block} {notes : ω → List Note}
  {session after : Session Entry} {world later : ω}

variable {config : Config} {state : Backfill} {settled : List Batch}

/-- A batch is confirmed or refuted when its block is looked up again. -/
theorem records_isSettled {filter : Filter} (stands : state.StandsAt session.entry)
    (recalls : state.Recalls tree filter session.entry (notes world)) :
    Records tree headOf notes (fun isSettled after later => after.entry = session.entry ∧
      if isSettled then ∃ settled, Confirmed tree filter settled after.entry (notes later)
      else ∃ settled batch, Refuted tree filter settled batch after.entry (notes later))
      (Unrefuted tree) (isSettled state) session world := by
  have isStopped := recalls.unrefuted
  rw [isSettled.eq_def]
  cases recalls with
  | verified settled isVerified confirmed =>
      rw [isVerified]
      exact ⟨rfl, settled, confirmed⟩
  | unverified settled batch isVerified confirmed account noted =>
      have isLast : state.last = some batch.block := by
        rw [← stands.ends, account.ends, List.getLast?_concat, Option.map_some]
      have number := (account.fetched batch (by simp)).contains.2
      rw [isVerified, isLast]
      dsimp only
      rw [number]
      apply (records_call isStopped).andThen
      intro found after later answered
      rcases answered with ⟨sameEntry, contains, truthful, notedThen⟩
      have checked : Batch.IsChecked { batch with found, checked := headOf later } tree :=
        ⟨contains, truthful⟩
      have accountThen := account.check found (headOf later)
      have sameNotes : notes later =
          (settled ++ [{ batch with found, checked := headOf later }]).flatMap Batch.notes := by
        rw [notedThen, noted, List.flatMap_append, List.flatMap_singleton, List.append_assoc]
        rfl
      rw [← sameEntry] at accountThen
      have refuted : found ≠ some batch.block → ∃ settled batch,
          Refuted tree filter settled batch after.entry (notes later) := fun displaced =>
        ⟨settled, _, confirmed, checked, displaced, accountThen, sameNotes⟩
      cases found with
      | none => exact ⟨sameEntry, refuted (Option.some_ne_none batch.block).symm⟩
      | some canonical =>
          refine ⟨sameEntry, ?_⟩
          split
          case isTrue same =>
            have found := BlockTree.path_of_getElem? contains (truthful canonical rfl)
            have isBlock : canonical = batch.block :=
              BlockTree.eq_of_hash_eq found.1 (account.fetched batch (by simp)).contains.1
                (beq_iff_eq.mp same)
            refine ⟨_, ?_, accountThen, sameNotes⟩
            intro other member
            rcases List.mem_append.mp member with member | member
            · exact confirmed other member
            · rw [List.mem_singleton.mp member]
              exact ⟨checked, congrArg some isBlock⟩
          case isFalse differs =>
            apply refuted
            intro same
            cases same
            exact differs (beq_iff_eq.mpr rfl)

theorem records_backfillRange {rangeEnd : Nat} (stands : state.StandsAt session.entry)
    (ordered : state.origin ≤ rangeEnd) (isVerified : state.isVerified = true)
    (confirmed : Confirmed tree config.filter settled session.entry (notes world)) :
    Records tree headOf notes (fun next after later => next.StandsAt after.entry ∧
      next.Recalls tree config.filter after.entry (notes later))
      (Unrefuted tree) (backfillRange config state rangeEnd) session world := by
  apply (records_reply confirmed.unrefuted).andThen
  intro reply now late answered
  rcases answered with ⟨sameEntry, contains, truthful, noted⟩
  rcases reply with _ | error | logs
  · show Unrefuted tree (notes late)
    rw [show notes late = notes world from noted.trans (List.append_nil _)]
    exact confirmed.unrefuted
  · rw [Query.notes, Node.Call.notes_error, List.append_nil] at noted
    rw [← noted, ← sameEntry] at confirmed
    rw [← sameEntry] at stands
    dsimp only
    split
    · exact ⟨⟨stands.ends, stands.origin⟩, .verified settled isVerified confirmed⟩
    · exact confirmed.unrefuted
  · have ranged : notes late =
        settled.flatMap Batch.notes ++ [.range state.origin rangeEnd (headOf late)] := by
      rw [noted, confirmed.noted]
      rfl
    dsimp only
    rw [blockAt, bind_assoc]
    apply (records_call ⟨settled, _, confirmed.confirmed, .ranged .., ranged⟩).andThen
    intro found after later answered
    rcases answered with ⟨sameThen, containsThen, truthfulThen, notedThen⟩
    rw [ranged, List.append_assoc] at notedThen
    cases found with
    | none => exact ⟨settled, _, confirmed.confirmed, .named .., notedThen⟩
    | some block =>
        -- What the check will find is not known yet.
        let batch : Batch :=
          { first := state.origin
            final := rangeEnd
            ranged := headOf late
            block
            named := headOf later
            found := none
            checked := headOf later }
        have isFetched : batch.IsFetched tree :=
          ⟨ordered, contains, containsThen, truthfulThen block rfl⟩
        have isLast : after.entry.lastBlock = state.last := by
          rw [sameThen, sameEntry]
          exact stands.ends
        have account : Account tree config.filter settled after.entry := by
          rw [sameThen, sameEntry]
          exact confirmed.account
        have isLogs : logs = batch.logsOn tree config.filter batch.ranged := truthful
        apply keeps_apply (Entry.apply_append _ logs block) trivial trivial
        refine (Backfill.computes_checkAdvance _ _ _ _).keeps
          ⟨⟨rfl, congrArg (· + 1) isFetched.contains.2.symm⟩,
            .unverified settled batch rfl confirmed.confirmed ?_ notedThen⟩
          fun _ => ⟨settled, _, confirmed.confirmed, .named .., notedThen⟩
        apply account.append isFetched _ (congrArg (after.entry.logs ++ ·) isLogs) rfl
        rw [isLast]
        exact stands.origin

end Session

/-- What a backfill ends with, by what was noted. -/
def Backfill.Reports (tree : BlockTree) (filter : Filter) (reached : Option Backfill)
    (entry : Entry) (noted : List Note) : Prop :=
  match reached with
  | some state => state.StandsAt entry ∧ ∃ settled, Confirmed tree filter settled entry noted
  | none => ∃ settled batch, Refuted tree filter settled batch entry noted

namespace Session

open Routine (Keeps)

variable {tree : BlockTree} {headOf : ω → Block} {notes : ω → List Note}
  {session after : Session Entry} {world later : ω} {config : Config} {state : Backfill}
  {turns : Nat} {outcome : Outcome (Option Backfill)}

theorem records_backfillStep (stands : state.StandsAt session.entry)
    (recalls : state.Recalls tree config.filter session.entry (notes world)) :
    Records tree headOf notes (fun result after later =>
      match result with
      | .inl state => state.StandsAt after.entry ∧
          state.Recalls tree config.filter after.entry (notes later)
      | .inr reached => Backfill.Reports tree config.filter reached after.entry (notes later))
      (Unrefuted tree) (backfillStep config state) session world := by
  apply (records_checkCanceled recalls.unrefuted).andThen
  intro _ after later unnoted
  rcases unnoted with ⟨sameEntry, noted⟩
  rw [← sameEntry] at stands
  rw [← sameEntry, ← noted] at recalls
  apply (records_isSettled stands recalls).andThen
  intro isSettled after late holds
  rcases holds with ⟨sameEntry, settles⟩
  cases isSettled with
  | false => exact settles
  | true =>
      rcases settles with ⟨settled, confirmed⟩
      rw [← sameEntry] at stands
      apply Keeps.get_andThen
      apply (records_call confirmed.unrefuted).andThen
      intro head after later answered
      rcases answered with ⟨sameEntry, contains, isHead, noted⟩
      have same : notes later = notes late := noted.trans (List.append_nil _)
      rw [← sameEntry, ← same] at confirmed
      rw [← sameEntry] at stands
      refine .computes (Backfill.computes_checkNear _ _ _) ?_ fun _ _ => confirmed.unrefuted
      split
      case isTrue => exact ⟨⟨stands.ends, stands.origin⟩, settled, confirmed⟩
      case isFalse far =>
        have bounded : head < Word.size 64 := by
          rw [show head = (headOf later).number from isHead]
          exact Nat.lt_of_succ_lt (tree.height_lt contains)
        have ordered := (Backfill.rangeEnd_settled far bounded).1
        apply (records_enter .backfilling).andThen
        intro _ ready now unnoted
        rcases unnoted with ⟨sameEntry, noted⟩
        rw [← sameEntry, ← noted] at confirmed
        rw [← sameEntry] at stands
        refine .computes (Backfill.computes_checkEnd _ _ _) ?_ fun _ _ => confirmed.unrefuted
        have standsThen : { state with isVerified := true : Backfill }.StandsAt ready.entry :=
          ⟨stands.ends, stands.origin⟩
        apply (records_backfillRange standsThen ordered rfl confirmed).andThen
        exact fun _ _ _ holds => holds

theorem records_backfill (ends : session.entry.lastBlock = none) (logs : session.entry.logs = [])
    (fresh : notes world = []) :
    Records tree headOf notes (fun reached after later =>
      Backfill.Reports tree config.filter reached after.entry (notes later))
      (Unrefuted tree) (backfill config turns 0 none) session world := by
  apply Keeps.iterate fun state after later => state.StandsAt after.entry ∧
    state.Recalls tree config.filter after.entry (notes later)
  · intro state session world holds
    apply (records_backfillStep holds.1 holds.2).weaken
    · intro result after later holds
      cases result with
      | inl state => exact holds
      | inr reached => exact holds
    · exact fun _ _ holds => holds
  · exact fun _ _ _ holds => holds.2.unrefuted
  · refine ⟨⟨ends, rfl⟩, .verified [] rfl ⟨?_, .empty ends logs, fresh⟩⟩
    exact fun _ member => (List.not_mem_nil member).elim

/-- A backfill that starts with nothing stores, for each of its batches, the logs of the
chain that was canonical when the range was answered. They match the block it ends at
exactly if each of these chains has the same logs in its range as the path of that block.
They do if the head stays above the block of each batch from the answer to its range to the
lookup of the block, and from its check to the answer to the next range. A stored block
that is not found again is reported, and nothing else is. -/
theorem backfilled_logs_match_iff (headOf : ω → Block) (notes : ω → List Note)
    (ends : session.entry.lastBlock = none) (logs : session.entry.logs = [])
    (fresh : notes world = [])
    (ended : (backfill config turns 0 none).Ends (tree.noting headOf notes) session world outcome
      after later) :
    (∀ state, outcome = .value (some state) → state.StandsAt after.entry ∧
      ∃ batches, Confirmed tree config.filter batches after.entry (notes later) ∧
        (∀ last, state.last = some last →
          (after.entry.logs = tree.logsAlong config.filter (tree.path last) ↔
            ∀ batch ∈ batches, batch.logsOn tree config.filter batch.ranged =
              batch.logsOn tree config.filter last)) ∧
        (Batch.Undisturbed tree batches → after.entry.Matches tree config.filter)) ∧
      (outcome = .value none → ∃ settled batch,
        Refuted tree config.filter settled batch after.entry (notes later)) ∧
      (outcome.value? = none → Unrefuted tree (notes later)) := by
  have noted : Records tree headOf notes (fun reached after later =>
      Backfill.Reports tree config.filter reached after.entry (notes later))
      (Unrefuted tree) (backfill config turns 0 none) session world :=
    records_backfill ends logs fresh
  have reports := noted.ends ended
  refine ⟨?_, ?_, ?_⟩
  · intro state isValue
    cases isValue
    rcases reports with ⟨stands, batches, confirmed⟩
    exact ⟨stands, batches, confirmed,
      fun last isLast => confirmed.account.logs_eq_iff (stands.ends.trans isLast),
      confirmed.account.matches_of_undisturbed⟩
  · intro isValue
    cases isValue
    exact reports
  · intro noValue
    cases outcome with
    | value reached => cases noValue
    | error error => exact reports
    | halted cause => exact reports

end Session

/-! ## A range from one branch and its block from the other -/

namespace Fork

/-- The head goes from the end of one branch to the end of the other. -/
def headAcross (time : Nat) : Nat → Block :=
  switch time (left 3) (right 3)

theorem across_follows (time : Nat) :
    (Surroundings.scripted tree (headAcross time)).Follows
      ((Movement.anywhere (headAcross time)).conduct (ε := Entry) tree) :=
  tree.scripted_follows (Movement.anywhere (headAcross time))
    (contains_switch (by decide +kernel) (by decide +kernel)) fun _ => trivial

/-- The end of a backfill while the head goes over. -/
def acrossEnd : Backfill :=
  { origin := 3, last := some (right 2), batch := 1000 }

end Fork

namespace Session

/-- Between the answer to a range and the lookup of the block that ends it, the head goes
over to the other branch. The backfill confirms that block, and the notes tell that the
range came from elsewhere. -/
theorem backfilled_logs_match_iff_at_fork :
    let ended := (backfill Fork.setup.config 2 0 none).run
      ((Surroundings.scripted Fork.tree (Fork.headAcross 6)).noting (Fork.headAcross 6))
        Fork.session (0, [])
    ended.1.value? = some (some Fork.acrossEnd) ∧
      ∃ batches, Confirmed Fork.tree {} batches ended.2.1.entry ended.2.2.2 ∧
        ∃ batch ∈ batches, batch.logsOn Fork.tree {} batch.ranged ≠
          batch.logsOn Fork.tree {} (Fork.right 2) := by
  intro ended
  have isValue : ended.1.value? = some (some Fork.acrossEnd) := by decide +kernel
  have differs : ended.2.1.entry.logs ≠
      Fork.tree.logsAlong {} (Fork.tree.path (Fork.right 2)) := by
    decide +kernel
  have follows : ((Surroundings.scripted Fork.tree (Fork.headAcross 6)).noting
      (Fork.headAcross 6)).Follows
        (Fork.tree.noting (fun world => Fork.headAcross 6 world.1) Prod.snd) :=
    Surroundings.noting_follows (Fork.across_follows 6)
  have noted := backfilled_logs_match_iff (fun world => Fork.headAcross 6 world.1) Prod.snd
    rfl rfl rfl (Routine.ends_of_run follows isValue)
  rcases noted.1 Fork.acrossEnd rfl with ⟨-, batches, confirmed, exactly, -⟩
  refine ⟨isValue, batches, confirmed, ?_⟩
  by_contra none
  push Not at none
  exact differs ((exactly (Fork.right 2) rfl).mpr none)

/-- The entry then ends at a block whose path has other logs. -/
theorem backfilled_logs_leave_path_at_fork :
    Fork.session.entry = {} ∧ ∃ state last after later,
      (backfill Fork.setup.config 2 0 none).Ends
        ((Movement.anywhere (Fork.headAcross 6)).conduct Fork.tree) Fork.session 0
          (.value (some state)) after later ∧
        state.last = some last ∧
          after.entry.logs ≠ Fork.tree.logsAlong {} (Fork.tree.path last) := by
  have isValue : ((backfill Fork.setup.config 2 0 none).run
      (.scripted Fork.tree (Fork.headAcross 6)) Fork.session 0).1.value? =
        some (some Fork.acrossEnd) := by
    decide +kernel
  refine ⟨rfl, Fork.acrossEnd, Fork.right 2, _, _,
    Routine.ends_of_run (Fork.across_follows 6) isValue, rfl, ?_⟩
  decide +kernel

end Session

end ReorgSync
