import ReorgSync.Proofs.Sync.Complete
import ReorgSync.Proofs.Sync.Preflight

namespace ReorgSync

/-! An index of contracts may tell where a synchronisation of an empty entry can begin. If
nothing below that height is selected, what is stored in the end does not hang on the hint,
as long as the chain has come to the height. -/

/-- Where a synchronisation begins with an answer of an index. One that fails or knows
nothing leads to the first block. -/
def hintedStart : Except NodeError (Option Nat) → Nat
  | .ok (some height) => height
  | _ => 0

/-- Settings with an index. -/
def Setup.withHints (config : Config) : Setup where
  config
  hasHints := true

/-- Settings without one, but with a start block. -/
def Setup.startingAt (height : Nat) (config : Config) : Setup where
  config := { config with startBlock := some height }

namespace StillChain

variable {chain : StillChain} {filter : Filter} {config : Config} {entry : Entry}
  {hint : Except NodeError (Option Nat)}

/-- The chain with an index that always gives the same answer. -/
def hintedBy (chain : StillChain) (hint : Except NodeError (Option Nat)) :
    Surroundings σ Unit where
  answer
    | .hint _, state, () => (some hint, state, ())
    | query, state, () => chain.surroundings.answer query state ()

theorem hintedBy_follows (chain : StillChain) (hint : Except NodeError (Option Nat)) :
    (chain.hintedBy hint : Surroundings σ Unit).Follows (chain.conduct False) := by
  intro query state _ answer after _ answered
  have calm := chain.surroundings_follows (σ := σ) False query state () answer after ()
  cases query with
  | hint addresses =>
      cases answered
      exact ⟨rfl, trivial⟩
  | _ => exact calm answered

/-- The canonical blocks below the height that is hinted at have no logs that a filter
selects. -/
def IsSound (chain : StillChain) (filter : Filter) (hint : Except NodeError (Option Nat)) :
    Prop :=
  ∀ block ∈ chain.blocks, block.number < hintedStart hint → chain.tree.logsOf filter block = []

theorem logsAlong_drop_of_isSound (sound : chain.IsSound filter hint) :
    chain.tree.logsAlong filter (chain.blocks.drop (hintedStart hint)) =
      chain.tree.logsAlong filter chain.blocks := by
  have nothing : chain.tree.logsAlong filter (chain.blocks.take (hintedStart hint)) = [] := by
    apply List.flatMap_eq_nil_iff.mpr
    intro block member
    exact sound block (List.mem_of_mem_take member)
      (BlockTree.number_lt_of_mem_take chain.contains member)
  rw [← chain.tree.logsAlong_take_append_drop filter (hintedStart hint) chain.blocks, nothing,
    List.nil_append]

theorem completion?_of_empty (empty : entry.lastBlock = none)
    (own : ∀ recorded, entry.identity = some recorded → recorded = chain.identity)
    (within : config.startBlock.getD 0 ≤ chain.head.number) :
    chain.completion? config entry = some {
      logs := entry.logs ++
        chain.tree.logsAlong config.filter (chain.blocks.drop (config.startBlock.getD 0))
      lastBlock := some chain.head
      identity := some chain.identity } := by
  have owns : entry.identity.all (· == chain.identity) = true := by
    cases recorded : entry.identity with
    | none => rfl
    | some known => exact beq_iff_eq.mpr (own known recorded)
  rw [completion?, if_pos owns, standing?]
  simp [empty, filled, Nat.not_lt.mpr within, within]

end StillChain

namespace Session

open Routine

variable {chain : StillChain} {config : Config} {hint : Except NodeError (Option Nat)}
  {session : Session Entry} {turns : Nat}

/-! ## Hints and start blocks -/

theorem run_start_withHints (noStart : config.startBlock = none)
    (addresses : config.filter.hasAddresses = true) (session : Session Entry) :
    (start (.withHints config)).run (chain.hintedBy hint) session () =
      (.value (hintedStart hint), session, ()) := by
  rw [start, Setup.withHints]
  simp only [noStart, addresses, and_self, if_true]
  rcases hint with error | _ | height <;> rfl

theorem run_start_startingAt {height : Nat} (within : height ≤ chain.head.number)
    (session : Session Entry) :
    (start (.startingAt height config)).run (chain.hintedBy hint) session () =
      (.value height, session, ()) := by
  have seeks := @seeks_start chain False session (.startingAt height config) rfl fun above =>
    absurd within (Nat.not_le.mpr above)
  rcases seeks.exists_run (chain.hintedBy_follows hint) with ⟨_, _, run, rfl, rfl, -⟩
  exact run

theorem logsOfBlocks_startingAt (height : Nat) (blocks : List Block) :
    (logsOfBlocks (Setup.startingAt height config).config blocks : Routine (Session Entry) _) =
      logsOfBlocks config blocks := by
  induction blocks with
  | nil => rfl
  | cons block rest induction =>
      rw [logsOfBlocks, logsOfBlocks, induction]
      rfl

theorem hotZone_startingAt (height origin : Nat) (last? : Option Block) :
    (hotZone (Setup.startingAt height config).config turns origin last? :
      Routine (Session Entry) _) = hotZone config turns origin last? := by
  simp only [hotZone, logsOfBlocks_startingAt]

/-- The chain has come to the height of the hint: then a hint is taken as a configured start
block would be. -/
theorem run_round_withHints (noStart : config.startBlock = none)
    (addresses : config.filter.hasAddresses = true)
    (within : hintedStart hint ≤ chain.head.number) (session : Session Entry) :
    (round (.withHints config) turns).run (chain.hintedBy hint) session () =
      (round (.startingAt (hintedStart hint) config) turns).run (chain.hintedBy hint) session
        () := by
  have origins : (origin (.withHints config)).run (chain.hintedBy hint) session () =
      (origin (.startingAt (hintedStart hint) config)).run (chain.hintedBy hint) session () := by
    apply run_bind_congr rfl
    intro last? after later
    cases last? with
    | some last => rfl
    | none =>
        apply run_bind_congr _ fun _ _ _ => rfl
        rw [run_start_withHints noStart addresses, run_start_startingAt within]
  apply run_bind_congr origins
  intro place after later
  apply run_bind_congr rfl
  intro reached after later
  cases reached with
  | none => rfl
  | some state =>
      dsimp only
      rw [hotZone_startingAt]
      rfl

theorem run_rounds_withHints (noStart : config.startBlock = none)
    (addresses : config.filter.hasAddresses = true)
    (within : hintedStart hint ≤ chain.head.number) (left past : Nat) (session : Session Entry) :
    (rounds (.withHints config) turns left past).run (chain.hintedBy hint) session () =
      (rounds (.startingAt (hintedStart hint) config) turns left past).run (chain.hintedBy hint)
        session () := by
  induction left generalizing past session with
  | zero =>
      apply run_bind_congr (run_round_withHints noStart addresses within session)
      exact fun _ _ _ => rfl
  | succ left induction =>
      apply run_bind_congr (run_round_withHints noStart addresses within session)
      intro reached after later
      cases reached with
      | some block => rfl
      | none => exact run_bind_congr rfl fun _ after _ => induction (past + 1) after

theorem run_catchUp_withHints (noStart : config.startBlock = none)
    (addresses : config.filter.hasAddresses = true)
    (within : hintedStart hint ≤ chain.head.number) :
    (catchUp (.withHints config) turns).run (chain.hintedBy hint) session () =
      (catchUp (.startingAt (hintedStart hint) config) turns).run (chain.hintedBy hint) session
        () :=
  run_bind_congr rfl fun _ after _ => run_rounds_withHints noStart addresses within _ 0 after

theorem run_sync_congr {setup other : Setup} {surroundings : Surroundings (Session Entry) Unit}
    (same : (catchUp setup turns).run surroundings session () =
      (catchUp other turns).run surroundings session ()) :
    (sync setup turns).run surroundings session () =
      (sync other turns).run surroundings session () := by
  apply run_bind_congr _ fun _ _ _ => rfl
  rw [run_attempt, run_attempt, same]

/-! ## Other chains -/

theorem truthful_reply (call : Node.Call) : chain.identity.Truthful call (chain.reply call) := by
  rcases call with _ | (_ | _ | height) | _ | _ | _
  case blockByTag.number.zero =>
    show chain.identity.Truthful (.blockByTag (.number 0)) (.ok chain.blocks[0]?)
    rw [StillChain.getElem?_genesis]
    rfl
  case chainId => exact rfl
  all_goals trivial

/-- Where nothing fails, a preflight gets its answers, and they are those of the chain. -/
theorem served_of_allows {query : Query} {answer : query.Answer}
    (allowed : chain.Allows False query answer) :
    chain.identity.Answers query answer ∧ ChainIdentity.Served query answer := by
  cases query with
  | node call =>
      rcases allowed with rfl | fails
      · exact ⟨truthful_reply call, trivial⟩
      · exact fails.1.elim
  | cancelableNode call =>
      rcases answer with _ | reply
      · exact allowed.elim
      rcases allowed with rfl | fails
      · refine ⟨truthful_reply call, ?_⟩
        rcases call with _ | (_ | _ | height) | _ | _ | _
        case blockByTag.number.zero =>
          exact ⟨chain.genesis, congrArg (some ∘ Except.ok) StillChain.getElem?_genesis⟩
        case chainId => exact ⟨chain.chainId, rfl⟩
        all_goals trivial
      · exact fails.1.elim
  | isCanceled => exact ⟨trivial, Bool.eq_false_iff.mpr allowed⟩
  | _ => exact ⟨trivial, trivial⟩

theorem follows_serving {surroundings : Surroundings (Session Entry) Unit}
    (follows : surroundings.Follows (chain.conduct False)) :
    surroundings.Follows (chain.identity.servingConduct (Shares chain.identity)) := by
  intro query session _ answer after _ answered
  rcases follows query session () answer after () answered with ⟨rfl, allowed⟩
  rcases served_of_allows allowed with ⟨answers, served⟩
  exact ⟨⟨⟨.inl rfl, rfl, rfl⟩, answers⟩, served⟩

/-- On another chain than the recorded one, no synchronisation comes to ask an index. -/
theorem run_catchUp_of_mismatch {setup other : Setup}
    {surroundings : Surroundings (Session Entry) Unit} {recorded : ChainIdentity}
    (follows : surroundings.Follows (chain.conduct False))
    (isNew : session.isIdentified = false) (reads : session.entry.identity = some recorded)
    (differs : recorded ≠ chain.identity) :
    (catchUp setup turns).run surroundings session () =
      (catchUp other turns).run surroundings session () := by
  have fails := Keeps.ends (failsWith_identifyOnce isNew (congrArg Except.ok reads) differs)
    (ends_run (follows_serving follows) identifyOnce session ())
  exact (run_bind_of_error fails).trans (run_bind_of_error fails).symm

/-! ## Hints above the head -/

section AboveHead

variable {surroundings : Surroundings (Session Entry) Unit} {height : Nat}

theorem follows_besideLedger (follows : surroundings.Follows (chain.conduct False)) :
    surroundings.Follows (Conduct.free besideLedger) := by
  intro query session _ answer after _ answered
  rw [(follows query session () answer after () answered).1]
  exact ⟨rfl, rfl⟩

/-- The preflight on a chain that an entry can belong to stores nothing but that. -/
theorem exists_run_identifyOnce (follows : surroundings.Follows (chain.conduct False))
    (onCourse : OnCourse chain config session session)
    (completes : (chain.completion? config session.entry).isSome) :
    ∃ after, identifyOnce.run surroundings session () = (.value (), after, ()) ∧
      after.follower.IsAt chain (max config.maxBlockBacklog 1) ∧ after.ledger = session.ledger := by
  have fails : chain.completion? config session.entry = none → False := by
    intro missing
    rw [missing] at completes
    cases completes
  rcases (tries_identifyOnce onCourse fails).exists_run follows with
    ⟨_, after, run, onCourse, -⟩
  have ended := ends_run (follows_besideLedger follows) identifyOnce session ()
  rw [run] at ended
  have quiet : session.besideLedger () after () := (leavesLedger_identifyOnce.ends ended).1
  exact ⟨after, run, onCourse.isAt, quiet.1⟩

/-- Above the head no ranges are left to ask for. -/
theorem seeks_backfill_aboveHead (above : chain.head.number < height) (turns : Nat) :
    (backfill config (turns + 1) height none).Seeks chain False
      (· = some { origin := height, last := none, batch := config.batchSize }) session := by
  have replies : chain.reply .height = .ok chain.head.number := rfl
  have step : (backfillStep config ⟨height, none, config.batchSize, true⟩).Seeks chain False
      (· = .inr (some ⟨height, none, config.batchSize, true⟩)) session := by
    apply Seeks.andThen Tries.checkCanceled
    intro _ _
    apply Seeks.andThen_finds (Seeks.done rfl)
    apply Tries.get_andThen
    apply Seeks.andThen_finds (seeks_call replies)
    have isNear : Backfill.isNear ⟨height, none, config.batchSize, true⟩ chain.head.number
        session.follower.backlog = true := decide_eq_true (.inl above)
    rw [Backfill.checkNear_eq (chain.tree.height_lt chain.contains), isNear]
    exact Seeks.done rfl
  apply Seeks.andThen_finds step
  exact Seeks.done rfl

theorem exists_run_hotZone_aboveHead (follows : surroundings.Follows (chain.conduct False))
    (isAt : session.follower.IsAt chain (max config.maxBlockBacklog 1))
    (above : chain.head.number < height) :
    ∃ after, (hotZone config turns height none).run surroundings session () =
      (.error (.storeAheadOfHead height chain.head.number), after, ()) ∧
        after.entry = session.entry := by
  have tries : refreshHead.Tries chain False (fun _ => True) (fun head after =>
      head = chain.head ∧ after.entry = session.entry ∧
        after.follower.window.head? = some chain.head) session :=
    tries_refreshHead isAt trivial fun _ _ _ _ => trivial
  rcases tries.exists_run follows with ⟨_, after, run, -, rfl, entry, -⟩
  refine ⟨after, (run_bind_of_value run).trans ?_, entry⟩
  rw [if_pos above]
  rfl

/-- Nothing of a round that begins above the head is stored. -/
theorem exists_run_round_aboveHead (noStart : config.startBlock = none)
    (addresses : config.filter.hasAddresses = true)
    (empty : session.entry.lastBlock = none)
    (isAt : session.follower.IsAt chain (max config.maxBlockBacklog 1))
    (above : chain.head.number < hintedStart hint) :
    ∃ after, (round (.withHints config) (turns + 1)).run (chain.hintedBy hint) session () =
      (.error (.storeAheadOfHead (hintedStart hint) chain.head.number), after, ()) ∧
        after.entry = session.entry := by
  have follows := chain.hintedBy_follows (σ := Session Entry) hint
  have begins : (origin (.withHints config)).run (chain.hintedBy hint) session () =
      (.value (hintedStart hint, none), session, ()) := by
    have reads : (readEntry EntryStore.lastBlock).run (chain.hintedBy hint) session () =
        (.value none, session, ()) := by
      rw [← empty]
      rfl
    apply (run_bind_of_value reads).trans
    exact run_bind_of_value (run_start_withHints noStart addresses session)
  rcases (seeks_backfill_aboveHead above turns).exists_run follows with ⟨_, _, fetches, rfl, rfl⟩
  rcases exists_run_hotZone_aboveHead follows isAt above with ⟨after, fails, entry⟩
  refine ⟨after, ?_, entry⟩
  exact (run_bind_of_value begins).trans ((run_bind_of_value fetches).trans fails)

theorem run_rounds_of_error {setup : Setup} {after : Session Entry} {cause : SyncError}
    (fails : (round setup turns).run surroundings session () = (.error cause, after, ()))
    (left past : Nat) :
    (rounds setup turns left past).run surroundings session () = (.error cause, after, ()) := by
  cases left <;> exact (run_bind_of_error (congrArg Prod.fst fails)).trans (by rw [fails])

/-- The error of the work is that of the call, and only its phase is entered then. -/
theorem run_concluding_of_error {work : Routine (Session Entry) α} {after : Session Entry}
    {cause : SyncError} (fails : work.run surroundings session () = (.error cause, after, ())) :
    (concluding work).run surroundings session () =
      (.error cause, { after with phase := phaseAfter cause }, ()) := by
  have ended : work.attempt.run surroundings session () = (.value (.error cause), after, ()) := by
    rw [run_attempt, fails]
    rfl
  exact run_bind_of_value ended

end AboveHead

/-! ## Any hints -/

/-- A session on a chain, with an entry that holds no block yet. -/
structure IsEmptyOn (session : Session Entry) (chain : StillChain) (config : Config) : Prop where
  empty : session.entry.lastBlock = none
  isAt : session.follower.IsAt chain (max config.maxBlockBacklog 1)
  known : session.isIdentified = true → session.entry.identity = some chain.identity

theorem isEmptyOn_fresh (chain : StillChain) (config : Config) (retryDelay : Nat)
    (capacity : Option Nat) {entry : Entry} (empty : entry.lastBlock = none) :
    (fresh config retryDelay capacity entry).IsEmptyOn chain config where
  empty := empty
  isAt := isAt_fresh chain config retryDelay capacity entry
  known isIdentified := nomatch isIdentified

variable {setup : Setup}

/-- What a synchronisation from a height on makes of an entry. -/
theorem exists_run_sync_of_empty (noHints : setup.hasHints = false)
    (isEmpty : session.IsEmptyOn chain setup.config)
    (own : ∀ recorded, session.entry.identity = some recorded → recorded = chain.identity)
    (within : setup.config.startBlock.getD 0 ≤ chain.head.number)
    (enough : (chain.head.number + 2) * (setup.config.batchSize + 2) ≤ turns)
    (fits : Backfill.Fits setup.config) :
    ∃ after, (sync setup turns).run (chain.hintedBy hint) session () =
      (.value chain.head, after, ()) ∧
        after.entry = {
          logs := session.entry.logs ++ chain.tree.logsAlong setup.config.filter
            (chain.blocks.drop (setup.config.startBlock.getD 0))
          lastBlock := some chain.head
          identity := some chain.identity } := by
  rcases exists_run_sync_in (chain.hintedBy_follows hint) noHints enough fits
    (.refl isEmpty.isAt isEmpty.known) (StillChain.completion?_of_empty isEmpty.empty own within)
    rfl with ⟨after, run, entry, -⟩
  exact ⟨after, run, entry⟩

theorem exists_run_sync_withHints (noStart : config.startBlock = none)
    (addresses : config.filter.hasAddresses = true) (isEmpty : session.IsEmptyOn chain config)
    (own : ∀ recorded, session.entry.identity = some recorded → recorded = chain.identity)
    (sound : chain.IsSound config.filter hint) (within : hintedStart hint ≤ chain.head.number)
    (enough : (chain.head.number + 2) * (config.batchSize + 2) ≤ turns)
    (fits : Backfill.Fits config) :
    ∃ after, (sync (.withHints config) turns).run (chain.hintedBy hint) session () =
      (.value chain.head, after, ()) ∧
        after.entry = {
          logs := session.entry.logs ++ chain.tree.logsAlong config.filter chain.blocks
          lastBlock := some chain.head
          identity := some chain.identity } := by
  have isEmptyThen : session.IsEmptyOn chain (Setup.startingAt (hintedStart hint) config).config :=
    ⟨isEmpty.empty, isEmpty.isAt, isEmpty.known⟩
  rw [run_sync_congr (run_catchUp_withHints noStart addresses within),
    ← StillChain.logsAlong_drop_of_isSound sound]
  exact exists_run_sync_of_empty rfl isEmptyThen own within enough fits

theorem exists_run_sync_aboveHead (noStart : config.startBlock = none)
    (addresses : config.filter.hasAddresses = true) (isEmpty : session.IsEmptyOn chain config)
    (own : ∀ recorded, session.entry.identity = some recorded → recorded = chain.identity)
    (above : chain.head.number < hintedStart hint) (turns : Nat) :
    ∃ after, (sync (.withHints config) (turns + 1)).run (chain.hintedBy hint) session () =
      (.error (.storeAheadOfHead (hintedStart hint) chain.head.number), after, ()) ∧
        after.ledger = session.ledger := by
  have within : config.startBlock.getD 0 ≤ chain.head.number := by
    rw [noStart]
    exact Nat.zero_le _
  have completes : (chain.completion? config session.entry).isSome := by
    rw [StillChain.completion?_of_empty isEmpty.empty own within]
    rfl
  rcases exists_run_identifyOnce (chain.hintedBy_follows hint) (.refl isEmpty.isAt isEmpty.known)
    completes with ⟨identified, identifies, isAt, ledger⟩
  have empty : identified.entry.lastBlock = none :=
    (congrArg Ledger.lastBlock ledger).trans isEmpty.empty
  rcases exists_run_round_aboveHead noStart addresses empty isAt above with ⟨after, fails, entry⟩
  have caughtUp : (catchUp (.withHints config) (turns + 1)).run (chain.hintedBy hint) session () =
      (.error (.storeAheadOfHead (hintedStart hint) chain.head.number), after, ()) :=
    (run_bind_of_value identifies).trans (run_rounds_of_error fails _ 0)
  refine ⟨_, run_concluding_of_error caughtUp, ?_⟩
  exact (congrArg FaithfulStore.ledger entry).trans ledger

/-- With a hint and without one, a synchronisation of an empty entry ends alike as long as the
chain has come to the height of the hint, or is refused before. With a hint above the head it
fails where it would have come to the head. -/
theorem hints_only_skip (chain : StillChain) (config : Config) (turns : Nat)
    {hint : Except NodeError (Option Nat)} {session : Session Entry}
    (noStart : config.startBlock = none) (addresses : config.filter.hasAddresses = true)
    (isEmpty : session.IsEmptyOn chain config) (sound : chain.IsSound config.filter hint)
    (enough : (chain.head.number + 2) * (config.batchSize + 2) ≤ turns)
    (fits : Backfill.Fits config) :
    let hinted := (sync (.withHints config) turns).run (chain.hintedBy hint) session ()
    let plain := (sync { config } turns).run (chain.hintedBy hint) session ()
    (hintedStart hint ≤ chain.head.number ∨
        (∃ recorded, session.entry.identity = some recorded ∧ recorded ≠ chain.identity) →
      hinted.1 = plain.1 ∧ hinted.2.1.entry = plain.2.1.entry) ∧
    (chain.head.number < hintedStart hint →
      (∀ recorded, session.entry.identity = some recorded → recorded = chain.identity) →
        hinted.1 = .error (.storeAheadOfHead (hintedStart hint) chain.head.number) ∧
          hinted.2.1.ledger = session.ledger ∧ plain.1 = .value chain.head) := by
  intro hinted plain
  have completes : (∀ recorded, session.entry.identity = some recorded →
      recorded = chain.identity) → ∃ after, plain = (.value chain.head, after, ()) ∧
        after.entry = {
          logs := session.entry.logs ++ chain.tree.logsAlong config.filter chain.blocks
          lastBlock := some chain.head
          identity := some chain.identity } := by
    intro own
    have fromGenesis := @exists_run_sync_of_empty chain hint session turns { config } rfl isEmpty
      own
    simp only [noStart] at fromGenesis
    exact fromGenesis (Nat.zero_le _) enough fits
  constructor
  · intro near
    rcases Classical.em (∃ recorded, session.entry.identity = some recorded ∧
      recorded ≠ chain.identity) with ⟨recorded, reads, differs⟩ | own
    · have isNew : session.isIdentified = false := by
        apply Bool.eq_false_iff.mpr
        intro isIdentified
        exact differs (Option.some.inj (reads.symm.trans (isEmpty.known isIdentified)))
      have same : hinted = plain := run_sync_congr
        (run_catchUp_of_mismatch (chain.hintedBy_follows hint) isNew reads differs)
      rw [same]
      exact ⟨rfl, rfl⟩
    · have within := near.resolve_right own
      simp only [not_exists, not_and, not_not] at own
      rcases completes own with ⟨after, completes, entry⟩
      rcases exists_run_sync_withHints noStart addresses isEmpty own sound within enough fits with
        ⟨afterHint, run, entryHint⟩
      rw [show hinted = _ from run, completes]
      exact ⟨rfl, entryHint.trans entry.symm⟩
  · intro above own
    have positive : 0 < turns :=
      Nat.lt_of_lt_of_le (Nat.mul_pos (Nat.succ_pos _) (Nat.succ_pos _)) enough
    rcases Nat.exists_eq_succ_of_ne_zero positive.ne' with ⟨left, rfl⟩
    rcases completes own with ⟨_, completes, -⟩
    rcases exists_run_sync_aboveHead noStart addresses isEmpty own above left with
      ⟨after, fails, ledger⟩
    rw [show hinted = _ from fails, completes]
    exact ⟨rfl, ledger, rfl⟩

end Session

/-! A fork with logs from height two on. -/

namespace Fork

def lateLogs (hash : String) : List Log :=
  (logs hash).filter (2 ≤ ·.blockNumber)

def lateChain : StillChain where
  tree := .ofBlocks blocks lateLogs (by decide +kernel)
  head := left 3
  contains := by decide +kernel
  chainId := 1
  limit := none
  refusal := ""

end Fork

namespace Session

/-- A hint at the first block with logs leaves out the blocks below. One above the head is
fatal, also if there is nothing to find on the chain at all. -/
theorem hints_only_skip_at_fork :
    let config (address : String) : Config :=
      { maxBlockBacklog := 1, batchSize := 1, filter := { addresses := [address] } }
    let begun (address : String) : Session Entry := .fresh (config address) 500 none {}
    let hinted (address : String) (height : Nat) := (sync (.withHints (config address)) 15).run
      (Fork.lateChain.hintedBy (.ok (some height))) (begun address) ()
    (hinted "contract" 2).1 = .value (Fork.left 3) ∧
      (hinted "contract" 2).2.1.entry.logs = [Fork.logOf (Fork.left 2), Fork.logOf (Fork.left 3)] ∧
        (hinted "other" 5).1 = .error (.storeAheadOfHead 5 3) := by
  intro config begun hinted
  have isEmpty : ∀ address, (begun address).IsEmptyOn Fork.lateChain (config address) :=
    fun address => isEmptyOn_fresh Fork.lateChain (config address) 500 none rfl
  have soundInside : Fork.lateChain.IsSound (config "contract").filter (.ok (some 2)) := by
    rw [StillChain.IsSound]
    decide +kernel
  have soundAbove : Fork.lateChain.IsSound (config "other").filter (.ok (some 5)) := by
    rw [StillChain.IsSound]
    decide +kernel
  have inside := (hints_only_skip Fork.lateChain (config "contract") 15 rfl rfl
    (isEmpty "contract") soundInside (by decide +kernel) (by decide)).1 (.inl (by decide +kernel))
  have aboveHead := (hints_only_skip Fork.lateChain (config "other") 15 rfl rfl
    (isEmpty "other") soundAbove (by decide +kernel) (by decide)).2 (by decide +kernel) fun _ => nofun
  refine ⟨inside.1.trans (Outcome.eq_value (by decide +kernel)), ?_, aboveHead.1⟩
  rw [show (hinted "contract" 2).2.1.entry = _ from inside.2]
  decide +kernel

/-- No block of the chain has logs that are selected, and with a hint above the head the
synchronisation fails that comes to the head without it. -/
theorem hint_above_head_fails_at_fork :
    let config : Config := { filter := { addresses := ["other"] } }
    let hint : Except NodeError (Option Nat) := .ok (some 5)
    let sync (setup : Setup) :=
      (Session.sync setup 6000).run (Fork.lateChain.hintedBy hint) (.fresh config 500 none {}) ()
    Fork.lateChain.IsSound config.filter hint ∧
      (sync { config }).1.value? = some (Fork.left 3) ∧
      (sync { config }).2.1.entry.lastBlock = some (Fork.left 3) ∧
      (sync (.withHints config)).1.value? = none ∧
      (sync (.withHints config)).2.1.entry.lastBlock = none := by
  intro config hint sync
  refine ⟨?_, by decide +kernel, by decide +kernel, by decide +kernel, by decide +kernel⟩
  rw [StillChain.IsSound]
  decide +kernel

end Session

end ReorgSync
