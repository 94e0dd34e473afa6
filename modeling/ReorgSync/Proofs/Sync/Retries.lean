import ReorgSync.Proofs.Routine.Attains
import ReorgSync.Proofs.Sync.Calls
import ReorgSync.Proofs.Sync.Faults
import ReorgSync.Proofs.Sync.Work

namespace ReorgSync

/-! Failed log queries are repeated, for each block by itself. As long as each block is
answered within the attempts, an operation ends as it does without failures; otherwise it ends
with the last failure of the first block that is not, and has stored nothing. -/

namespace Session

variable {ε : Type} {chain : StillChain} {faults : LogFaults} {session : Session ε}
  {asked : List String}

/-! ## One block -/

section

variable {filter : Filter} {hash : String} {delay attempts : Nat}

theorem count_asked : (asked ++ [hash]).count hash = asked.count hash + 1 := by
  rw [List.count_append, List.count_singleton_self]

theorem run_guarded_failing {routine : Routine σ α} {state : σ} :
    routine.guarded.run (chain.failing faults) state asked =
      routine.cancelable.run (chain.failing faults) state asked := by
  have proceeds : Routine.checkCanceled.run (chain.failing faults) state asked =
      (.value (), state, asked) := chain.run_failing faults .checkCanceled state asked
  exact Routine.run_bind_of_value proceeds

theorem run_logs_reply :
    ((Routine.ask (.cancelableNode (.logs ⟨filter, .blockHash hash⟩)) .done).guarded :
        Routine (Session ε) _).run (chain.failing faults) session asked =
      (.value (some (faults.reply asked hash (.ok ((chain.tree.logs hash).filter
        filter.matchesLog)))), session, asked ++ [hash]) := by
  rw [run_guarded_failing]
  rfl

theorem run_logs_call :
    (call (.logs ⟨filter, .blockHash hash⟩) : Routine (Session ε) _).run (chain.failing faults)
        session asked =
      ((match faults.reply asked hash (.ok ((chain.tree.logs hash).filter filter.matchesLog)) with
        | .ok logs => .value logs
        | .error error => .error (.node error)), session, asked ++ [hash]) := by
  rw [call, run_guarded_failing, Routine.node, Routine.cancelable]
  generalize isReply :
    faults.reply asked hash (.ok ((chain.tree.logs hash).filter filter.matchesLog)) = reply
  change (Routine.ofReply (faults.reply asked hash (.ok ((chain.tree.logs hash).filter
    filter.matchesLog)))).cancelable.run (chain.failing faults) session (asked ++ [hash]) = _
  rw [isReply]
  cases reply <;> rfl

/-- After a failure the query is made again, with one attempt less. -/
theorem run_retryLogs_again (isFailed : (faults hash (asked.count hash)).isSome) :
    (retryLogs ⟨filter, .blockHash hash⟩ delay (attempts + 1) : Routine (Session ε) _).run
        (chain.failing faults) session asked =
      (retryLogs ⟨filter, .blockHash hash⟩ delay attempts).run (chain.failing faults) session
        (asked ++ [hash]) := by
  rcases Option.isSome_iff_exists.mp isFailed with ⟨error, failed⟩
  rw [retryLogs, Routine.run_bind_of_value run_logs_reply, LogFaults.reply, failed]
  have slept : (Routine.sleep delay).run (chain.failing faults) session (asked ++ [hash]) =
      (.value (), session, asked ++ [hash]) := chain.run_failing faults (.sleep delay) session _
  exact Routine.run_bind_of_value slept

/-- A block whose query is answered within the attempts is asked for once more than it
failed. -/
theorem run_retryLogs {failed : Nat} (within : failed ≤ attempts)
    (answered : AnsweredAfter failed fun count => faults hash (asked.count hash + count)) :
    (retryLogs ⟨filter, .blockHash hash⟩ delay attempts : Routine (Session ε) _).run
        (chain.failing faults) session asked =
      (.value ((chain.tree.logs hash).filter filter.matchesLog), session,
        asked ++ List.replicate (failed + 1) hash) := by
  induction attempts generalizing failed asked with
  | zero =>
      cases Nat.le_zero.mp within
      have answers : faults hash (asked.count hash) = none := answered.answers
      rw [retryLogs, run_logs_call, LogFaults.reply, answers]
      rfl
  | succ attempts induction =>
      cases failed with
      | zero =>
          have answers : faults hash (asked.count hash) = none := answered.answers
          rw [retryLogs, Routine.run_bind_of_value run_logs_reply, LogFaults.reply, answers]
          rfl
      | succ failed =>
          have later : AnsweredAfter failed fun count =>
              faults hash ((asked ++ [hash]).count hash + count) := by
            rw [count_asked]
            exact answered.later
          rw [run_retryLogs_again (answered.fails 0 (Nat.succ_pos failed)),
            induction (Nat.le_of_succ_le_succ within) later, List.append_assoc]
          rfl

/-- A block whose query fails in all attempts is not asked for again. -/
theorem run_retryLogs_failing {error : NodeError}
    (fails : ∀ count < attempts, (faults hash (asked.count hash + count)).isSome)
    (last : faults hash (asked.count hash + attempts) = some error) :
    (retryLogs ⟨filter, .blockHash hash⟩ delay attempts : Routine (Session ε) _).run
        (chain.failing faults) session asked =
      (.error (.node error), session, asked ++ List.replicate (attempts + 1) hash) := by
  induction attempts generalizing asked with
  | zero =>
      rw [Nat.add_zero] at last
      rw [retryLogs, run_logs_call, LogFaults.reply, last]
      rfl
  | succ attempts induction =>
      rw [run_retryLogs_again (fails 0 (Nat.succ_pos attempts)), induction, List.append_assoc]
      · rfl
      · intro count below
        rw [count_asked, Nat.add_assoc, Nat.add_comm 1 count]
        exact fails (count + 1) (Nat.succ_lt_succ below)
      · rw [count_asked, Nat.add_assoc, Nat.add_comm 1 attempts]
        exact last

end

/-! ## One block after the other -/

section

variable {config : Config} {block : Block} {blocks rest : List Block}

theorem run_blockLogs (fresh : block.hash ∉ asked)
    (answered : ∃ count < max config.retryAttempts 1, faults block.hash count = none) :
    (blockLogs config block.hash : Routine (Session ε) _).run (chain.failing faults) session asked =
      (.value (chain.tree.logsOf config.filter block), session,
        asked ++ faults.asks (max config.retryAttempts 1) block.hash) := by
  rcases LogFaults.answeredAfter_failures answered with ⟨within, answeredAfter⟩
  apply run_retryLogs (Nat.le_sub_one_of_lt within)
  simp only [List.count_eq_zero_of_not_mem fresh, Nat.zero_add]
  exact answeredAfter

theorem run_blockLogs_failing {error : NodeError} (fresh : block.hash ∉ asked)
    (fails : ∀ count < max config.retryAttempts 1, (faults block.hash count).isSome)
    (last : faults block.hash (max config.retryAttempts 1 - 1) = some error) :
    (blockLogs config block.hash : Routine (Session ε) _).run (chain.failing faults) session asked =
      (.error (.node error), session,
        asked ++ List.replicate (max config.retryAttempts 1) block.hash) := by
  have none : asked.count block.hash = 0 := List.count_eq_zero_of_not_mem fresh
  have isAsked : max config.retryAttempts 1 - 1 + 1 = max config.retryAttempts 1 := by omega
  rw [blockLogs, run_retryLogs_failing, isAsked]
  · intro count below
    rw [none, Nat.zero_add]
    exact fails count (by omega)
  · rw [none, Nat.zero_add]
    exact last

/-- The logs of blocks whose queries are answered within the attempts are fetched one after
the other. -/
theorem run_logsOfBlocks_append {finish : List Log → Routine (Session ε) α}
    (distinct : (blocks.map (·.hash)).Nodup) (fresh : ∀ block ∈ blocks, block.hash ∉ asked)
    (answered : ∀ block ∈ blocks,
      ∃ count < max config.retryAttempts 1, faults block.hash count = none) :
    (logsOfBlocks config (blocks ++ rest) >>= finish).run (chain.failing faults) session asked =
      (logsOfBlocks config rest >>= fun logs =>
        finish (chain.tree.logsAlong config.filter blocks ++ logs)).run (chain.failing faults)
          session (asked ++ (blocks.map (·.hash)).flatMap
            (faults.asks (max config.retryAttempts 1))) := by
  induction blocks generalizing asked finish with
  | nil =>
      rw [List.map_nil, List.flatMap_nil, List.append_nil]
      rfl
  | cons block blocks induction =>
      have fetched : (blockLogs config block.hash).run (chain.failing faults) session asked =
          (.value (chain.tree.logsOf config.filter block), session,
            asked ++ faults.asks (max config.retryAttempts 1) block.hash) :=
        run_blockLogs (fresh block List.mem_cons_self) (answered block List.mem_cons_self)
      -- The hashes are distinct, so the failures of one block do not count for another.
      have freshThen : ∀ other ∈ blocks,
          other.hash ∉ asked ++ faults.asks (max config.retryAttempts 1) block.hash := by
        intro other member isAsked
        rcases List.mem_append.mp isAsked with before | now
        · exact fresh other (List.mem_cons_of_mem _ member) before
        · have same : other.hash = block.hash := List.eq_of_mem_replicate now
          exact (List.nodup_cons.mp distinct).1 (List.mem_map.mpr ⟨other, member, same⟩)
      rw [List.cons_append, logsOfBlocks, bind_assoc, Routine.run_bind_of_value fetched, bind_assoc]
      simp only [pure_bind]
      rw [induction (List.nodup_cons.mp distinct).2 freshThen
        (fun other member => answered other (List.mem_cons_of_mem _ member))]
      rw [List.map_cons, List.flatMap_cons, List.append_assoc]
      simp only [BlockTree.logsAlong_cons, List.append_assoc]

/-- Where all of them are answered, the operation goes on with the logs. -/
theorem run_logsOfBlocks {finish : List Log → Routine (Session ε) α}
    (distinct : (blocks.map (·.hash)).Nodup)
    (answered : ∀ block ∈ blocks,
      ∃ count < max config.retryAttempts 1, faults block.hash count = none) :
    (logsOfBlocks config blocks >>= finish).run (chain.failing faults) session [] =
      (finish (chain.tree.logsAlong config.filter blocks)).run (chain.failing faults) session
        ((blocks.map (·.hash)).flatMap (faults.asks (max config.retryAttempts 1))) := by
  have fresh : ∀ block ∈ blocks, block.hash ∉ ([] : List String) :=
    fun _ _ => List.not_mem_nil
  rw [← List.append_nil blocks, run_logsOfBlocks_append distinct fresh answered]
  simp only [List.append_nil, List.nil_append, logsOfBlocks, pure_bind]

/-- The first of them whose query always fails ends the operation. -/
theorem run_logsOfBlocks_failing {finish : List Log → Routine (Session ε) α} {error : NodeError}
    (distinct : ((blocks ++ block :: rest).map (·.hash)).Nodup)
    (answered : ∀ block ∈ blocks,
      ∃ count < max config.retryAttempts 1, faults block.hash count = none)
    (fails : ∀ count < max config.retryAttempts 1, (faults block.hash count).isSome)
    (last : faults block.hash (max config.retryAttempts 1 - 1) = some error) :
    (logsOfBlocks config (blocks ++ block :: rest) >>= finish).run (chain.failing faults)
        session [] =
      (.error (.node error), session,
        (blocks.map (·.hash)).flatMap (faults.asks (max config.retryAttempts 1)) ++
          List.replicate (max config.retryAttempts 1) block.hash) := by
  rw [List.map_append, List.map_cons, List.nodup_append] at distinct
  rcases distinct with ⟨distinct, -, others⟩
  rw [run_logsOfBlocks_append distinct (fun _ _ => List.not_mem_nil) answered, List.nil_append,
    logsOfBlocks, bind_assoc]
  have fresh : block.hash ∉
      (blocks.map (·.hash)).flatMap (faults.asks (max config.retryAttempts 1)) := by
    intro member
    rcases List.mem_flatMap.mp member with ⟨hash, before, isAsked⟩
    exact others hash before block.hash List.mem_cons_self (List.eq_of_mem_replicate isAsked).symm
  have failed : (blockLogs config block.hash).run (chain.failing faults) session _ = _ :=
    run_blockLogs_failing fresh fails last
  rw [Routine.run_bind_of_error, failed]
  rw [failed]

end

end Session

/-! ## Operations -/

/-- What the faults make of an operation. Both runs are given with the blocks whose logs they
have asked for. -/
structure Withstands (limit : Nat) (faults : LogFaults) (session : Session ε)
    (plain ended : Outcome α × Session ε × List String) : Prop where
  /-- As long as each block is answered within the limit, nothing else differs, and each
  query is made once more than it failed. -/
  answered : (∀ hash ∈ plain.2.2, ∃ count < limit, faults hash count = none) →
    ended.1 = plain.1 ∧ ended.2.1 = plain.2.1 ∧ ∀ hash,
      (hash ∈ plain.2.2 →
        ∃ failed, AnsweredAfter failed (faults hash) ∧ ended.2.2.count hash = failed + 1) ∧
      (hash ∉ plain.2.2 → hash ∉ ended.2.2)
  /-- Otherwise the first block that is not answered ends the operation with its last error,
  and nothing is stored or published. -/
  failed : ∀ hash ∈ plain.2.2, (∀ count < limit, (faults hash count).isSome) →
    ∃ front first back error, plain.2.2 = front ++ first :: back ∧
      (∀ count < limit, (faults first count).isSome) ∧
      faults first (limit - 1) = some error ∧ ended.1 = .error (.node error) ∧
      ended.2.2.count first = limit ∧
      (∀ other ∈ front, ∃ failed, AnsweredAfter failed (faults other) ∧
        ended.2.2.count other = failed + 1) ∧
      (∀ other ∈ back, other ∉ ended.2.2) ∧
      ended.2.1.entry = session.entry ∧ ended.2.1.events = session.events

/-- It is enough to know the two ways in which the log queries of an operation may go. -/
theorem withstands_of_asks {limit : Nat} {faults : LogFaults} {session now after : Session ε}
    {outcome : Outcome α} {hashes : List String} {ended : Outcome α × Session ε × List String}
    (positive : 0 < limit) (distinct : hashes.Nodup) (entry : now.entry = session.entry)
    (events : now.events = session.events)
    (through : (∀ hash ∈ hashes, ∃ count < limit, faults hash count = none) →
      ended = (outcome, after, hashes.flatMap (faults.asks limit)))
    (fails : ∀ front first back error, hashes = front ++ first :: back →
      (∀ other ∈ front, ∃ count < limit, faults other count = none) →
      (∀ count < limit, (faults first count).isSome) → faults first (limit - 1) = some error →
      ended = (.error (.node error), now,
        front.flatMap (faults.asks limit) ++ List.replicate limit first)) :
    Withstands limit faults session (outcome, after, hashes) ended := by
  constructor
  · intro answered
    rw [through answered]
    refine ⟨rfl, rfl, fun hash => ⟨fun member => ?_, fun absent isAsked => ?_⟩⟩
    · exact ⟨_, (LogFaults.answeredAfter_failures (answered hash member)).2,
        LogFaults.count_flatMap_asks distinct member⟩
    · exact absent (LogFaults.mem_of_mem_flatMap_asks isAsked)
  · intro hash member failsSome
    rcases LogFaults.exists_first_failing member failsSome with
      ⟨front, first, back, rfl, failsFirst, answered⟩
    rcases Option.isSome_iff_exists.mp (failsFirst (limit - 1) (by omega)) with ⟨error, last⟩
    rcases List.nodup_append.mp distinct with ⟨distinctFront, distinctBack, apart⟩
    have notBefore : first ∉ front.flatMap (faults.asks limit) := fun isAsked =>
      apart first (LogFaults.mem_of_mem_flatMap_asks isAsked) first List.mem_cons_self rfl
    rw [fails front first back error rfl answered failsFirst last]
    refine ⟨front, first, back, error, rfl, failsFirst, last, rfl, ?_, ?_, ?_, entry, events⟩
    · rw [List.count_append, List.count_eq_zero_of_not_mem notBefore, Nat.zero_add,
        List.count_replicate_self]
    · intro other before
      have different : other ∉ List.replicate limit first := fun isAsked =>
        apart other before first List.mem_cons_self (List.eq_of_mem_replicate isAsked)
      refine ⟨_, (LogFaults.answeredAfter_failures (answered other before)).2, ?_⟩
      rw [List.count_append, List.count_eq_zero_of_not_mem different, Nat.add_zero,
        LogFaults.count_flatMap_asks distinctFront before]
    · intro other behind isAsked
      rcases List.mem_append.mp isAsked with before | isFirst
      · exact apart other (LogFaults.mem_of_mem_flatMap_asks before) other
          (List.mem_cons_of_mem first behind) rfl
      · rw [List.eq_of_mem_replicate isFirst] at behind
        exact (List.nodup_cons.mp distinctBack).1 behind

namespace StillChain

/-- A head that does not move. -/
def movement (chain : StillChain) : Movement Unit :=
  .anywhere fun _ => chain.head

theorem surroundings_follows_movement (chain : StillChain) :
    (chain.surroundings : Surroundings (Session ε) Unit).Follows
      (chain.movement.conduct chain.tree) :=
  Surroundings.calm_follows
    (fun _ _ => chain.tree.truthful_reply chain.chainId chain.limit chain.refusal chain.head)
    (fun _ => chain.contains) fun session _ _ => ⟨rfl, .refl chain.tree session.follower, trivial⟩

end StillChain

namespace Session

/-- Whatever the faults are, an operation comes to the same place without a log query: to its
end, or to where it fetches the logs of some blocks. It asks for no other logs behind that. -/
inductive ComesToLogs (chain : StillChain) (config : Config) (begun : Session ε)
    (work : Routine (Session ε) α) (session : Session ε) : Prop
  | ends {outcome : Outcome α} {after : Session ε}
      (runs : ∀ faults, work.run (chain.failing faults) session [] = (outcome, after, []))
  | asks {now : Session ε} {blocks : List Block} {finish : List Log → Routine (Session ε) α}
      (entry : now.entry = begun.entry) (events : now.events = begun.events)
      (distinct : (blocks.map (·.hash)).Nodup) (spares : ∀ logs, (finish logs).SparesLogs)
      (runs : ∀ faults, work.run (chain.failing faults) session [] =
        (logsOfBlocks config blocks >>= finish).run (chain.failing faults) now [])

namespace ComesToLogs

variable {chain : StillChain} {config : Config} {begun session : Session ε}

theorem quiet {work : Routine (Session ε) α} (spares : work.SparesLogs) :
    ComesToLogs chain config begun work session :=
  .ends fun faults => chain.run_failing faults spares session []

/-- What finds something out in front of an operation does not notice the faults. -/
theorem andThen {first : Routine (Session ε) α} {second : α → Routine (Session ε) β}
    {found : α → Prop} (spares : first.SparesLogs)
    (finds : StoresNothing chain.tree chain.movement found first session ())
    (continues : ∀ value after, found value →
      chain.movement.besideStore chain.tree session () after () →
        ComesToLogs chain config begun (second value) after) :
    ComesToLogs chain config begun (first >>= second) session := by
  -- The run without faults is the run with any of them, so it is followed once for all.
  have met := Routine.Keeps.run finds
    (Routine.followedBy_of_follows chain.surroundings_follows_movement first session ())
  have runs := fun faults => chain.run_failing faults spares session []
  generalize first.run chain.surroundings session () = ended at met runs
  rcases ended with ⟨outcome, after, later⟩
  have goesOn : ∀ faults, (first >>= second).run (chain.failing faults) session [] =
      Outcome.andThen (fun value => (second value).run (chain.failing faults))
        (outcome, after, []) := by
    intro faults
    rw [Routine.bind_eq, Routine.run_bind, runs]
  cases outcome with
  | value value =>
      cases continues value after met.2 met.1 with
      | ends runsThen => exact .ends fun faults => (goesOn faults).trans (runsThen faults)
      | asks entry events distinct sparesThen runsThen =>
          exact .asks entry events distinct sparesThen fun faults =>
            (goesOn faults).trans (runsThen faults)
  | error cause => exact .ends goesOn
  | halted cause => exact .ends goesOn

/-- An operation of this kind withstands faults. -/
theorem withstands {work : Routine (Session ε) α}
    (comes : ComesToLogs chain config session work session) (faults : LogFaults) :
    Withstands (max config.retryAttempts 1) faults session
      (work.run (chain.failing fun _ _ => none) session [])
      (work.run (chain.failing faults) session []) := by
  cases comes with
  | ends runs =>
      rw [runs, runs]
      exact ⟨fun _ => ⟨rfl, rfl, fun hash => ⟨nofun, id⟩⟩, nofun⟩
  | @asks now blocks finish entry events distinct spares runs =>
      let logs := chain.tree.logsAlong config.filter blocks
      let final := (finish logs).run chain.surroundings now ()
      have runsThrough : ∀ faults : LogFaults,
          (∀ block ∈ blocks,
            ∃ count < max config.retryAttempts 1, faults block.hash count = none) →
          work.run (chain.failing faults) session [] = (final.1, final.2.1,
            (blocks.map (·.hash)).flatMap (faults.asks (max config.retryAttempts 1))) := by
        intro faults answered
        rw [runs, run_logsOfBlocks distinct answered, chain.run_failing faults (spares _)]
      have positive : 0 < max config.retryAttempts 1 := by omega
      have plain : work.run (chain.failing fun _ _ => none) session [] =
          (final.1, final.2.1, blocks.map (·.hash)) := by
        rw [runsThrough _ fun _ _ => ⟨0, positive, rfl⟩,
          funext (LogFaults.asks_of_no_faults positive)]
        exact congrArg _ (congrArg _ (List.flatMap_singleton' _))
      rw [plain]
      apply withstands_of_asks positive distinct entry events
      · intro answered
        exact runsThrough faults fun block member =>
          answered block.hash (List.mem_map_of_mem member)
      · intro front first back error split answered failsFirst last
        rcases List.map_eq_append_iff.mp split with ⟨before, rest, rfl, rfl, isRest⟩
        rcases List.map_eq_cons_iff.mp isRest with ⟨block, behind, rfl, rfl, rfl⟩
        rw [runs]
        exact run_logsOfBlocks_failing distinct
          (fun other member => answered other.hash (List.mem_map_of_mem member)) failsFirst last

end ComesToLogs

end Session

/-! ## The two operations -/

/-- Blocks of a run have hashes of their own, as they have heights of their own. -/
theorem BlockTree.IsRun.distinct_hashes {tree : BlockTree} {blocks : List Block}
    (isRun : tree.IsRun blocks) : (blocks.map (·.hash)).Nodup := by
  rw [List.Nodup, List.pairwise_map]
  refine isRun.1.pairwise_number.imp_of_mem fun {older newer} isOlder isNewer lower same => ?_
  have isSame := BlockTree.eq_of_hash_eq (isRun.2 older isOlder) (isRun.2 newer isNewer) same
  rw [isSame] at lower
  exact Nat.lt_irrefl _ lower

namespace Session

open Routine (SparesLogs)

variable {ε : Type} [EntryStore ε] {chain : StillChain} {config : Config} {session : Session ε}

theorem hotZone_comesToLogs (honest : session.follower.IsHonest chain.tree) (turns origin : Nat)
    (last : Option Block) :
    ComesToLogs chain config session (hotZone config turns origin last) session := by
  refine .andThen sparesLogs_refreshHead (storesNothing_refreshHead honest) ?_
  intro head refreshed contains passed
  have honest := Movement.isHonest_of_besideStore passed honest
  split
  · cases last <;> exact .quiet trivial
  case isFalse within =>
    have enters : StoresNothing chain.tree chain.movement (fun _ => True) (enter .hotZone)
        refreshed () := (quietly_enter .hotZone).mono fun _ _ _ _ _ => trivial
    refine .andThen (SparesLogs.modify _) enters fun _ entered _ passedThen => ?_
    have honest := Movement.isHonest_of_besideStore passedThen honest
    have passed := IsPassing.trans passed passedThen
    refine .andThen (sparesLogs_descend turns origin head)
      (storesNothing_descend turns origin contains (Nat.le_of_not_lt within) honest) ?_
    intro run now descended passedThen
    have passed := IsPassing.trans passed passedThen
    dsimp only
    split
    · refine .asks passed.1.1 passed.1.2 descended.1.distinct_hashes (fun logs => ?_)
        fun faults => rfl
      exact (sparesLogs_apply _).andThen fun _ => trivial
    · exact .quiet trivial

theorem applyDelta_comesToLogs {delta : Delta} (honest : delta.IsHonest chain.tree)
    (last : Block) :
    ComesToLogs chain config session (applyDelta config last delta) session := by
  have looks : (baseOf last delta).OnlyWrites (fun _ _ => False) session :=
    onlyWrites_baseOf last delta
  have finds : StoresNothing chain.tree chain.movement (fun _ => True) (baseOf last delta)
      session () := looks.quietly fun _ _ _ => False.elim
  refine .andThen (sparesLogs_baseOf last delta) finds fun base? now _ passed => ?_
  cases base? with
  | none => exact .quiet trivial
  | some base =>
      dsimp only
      split
      · split
        · refine .asks passed.1.1 passed.1.2 ?_ (fun logs => ?_) fun faults => rfl
          · exact (honest.added.filter_above base.number).distinct_hashes
          · exact (sparesLogs_apply _).andThen fun _ => trivial
        · exact .quiet trivial
      · exact .quiet trivial

/-- Errors of log queries are made up for as long as each block is answered within the
attempts; the first block that is not ends the operation with its last error. -/
theorem log_faults_withstood (chain : StillChain) (faults : LogFaults) (config : Config)
    (session : Session ε) (honest : session.follower.IsHonest chain.tree) (turns origin : Nat)
    (last? : Option Block) (last : Block) (delta : Delta)
    (honestDelta : delta.IsHonest chain.tree) :
    Withstands (max config.retryAttempts 1) faults session
        ((hotZone config turns origin last?).run (chain.failing fun _ _ => none) session [])
        ((hotZone config turns origin last?).run (chain.failing faults) session []) ∧
      Withstands (max config.retryAttempts 1) faults session
        ((applyDelta config last delta).run (chain.failing fun _ _ => none) session [])
        ((applyDelta config last delta).run (chain.failing faults) session []) :=
  ⟨(hotZone_comesToLogs honest turns origin last?).withstands faults,
    (applyDelta_comesToLogs honestDelta last).withstands faults⟩

/-- Logs that are late by two queries are waited for, by a hot zone and by a delta. Logs that
are late by three end either of them, and the delta has asked for the block in front. -/
theorem log_faults_withstood_at_fork :
    let chain : StillChain := ⟨Fork.tree, Fork.left 3, by decide +kernel, 1, none, ""⟩
    let config : Config := { maxBlockBacklog := 1, retryAttempts := 3 }
    let session : Session Entry := { follower := .make 1 0 none, entry := {} }
    let delta : Delta := { added := [Fork.left 1, Fork.left 2, Fork.left 3], removed := [] }
    let late (queries : Nat) : LogFaults := fun hash count =>
      if hash = "left 2" ∧ count < queries then some (.transport "") else none
    let zone (faults : LogFaults) :=
      (hotZone config 20 2 none).run (chain.failing faults) session []
    let applied (faults : LogFaults) :=
      (applyDelta config Fork.root delta).run (chain.failing faults) session []
    session.follower.IsHonest chain.tree ∧ delta.IsHonest chain.tree ∧
      (zone fun _ _ => none).2.2 = ["left 2", "left 3"] ∧
      (applied fun _ _ => none).2.2 = ["left 1", "left 2", "left 3"] ∧
      (zone (late 2)).2.2 = ["left 2", "left 2", "left 2", "left 3"] ∧
      (zone (late 2)).1 = (zone fun _ _ => none).1 ∧
      (zone (late 2)).2.1 = (zone fun _ _ => none).2.1 ∧
      (applied (late 2)).2.2 = ["left 1", "left 2", "left 2", "left 2", "left 3"] ∧
      (applied (late 2)).1 = (applied fun _ _ => none).1 ∧
      (applied (late 2)).2.1 = (applied fun _ _ => none).2.1 ∧
      (zone (late 3)).1 = .error (.node (.transport "")) ∧
      (zone (late 3)).2.1.entry = session.entry ∧
      (zone (late 3)).2.1.events = session.events ∧
      "left 3" ∉ (zone (late 3)).2.2 ∧
      (applied (late 3)).1 = .error (.node (.transport "")) ∧
      (applied (late 3)).2.1.entry = session.entry ∧
      (applied (late 3)).2.1.events = session.events ∧
      (applied (late 3)).2.2.count "left 1" = 1 ∧ "left 3" ∉ (applied (late 3)).2.2 := by
  intro chain config session delta late zone applied
  have honest : session.follower.IsHonest chain.tree := Follower.isHonest_make _ 1 0 none
  have honestDelta : delta.IsHonest chain.tree := by decide +kernel
  have zoneAsks : (zone fun _ _ => none).2.2 = ["left 2", "left 3"] := by decide +kernel
  have deltaAsks : (applied fun _ _ => none).2.2 = ["left 1", "left 2", "left 3"] := by
    decide +kernel
  have withstands (queries : Nat) :
      Withstands 3 (late queries) session (zone fun _ _ => none) (zone (late queries)) ∧
        Withstands 3 (late queries) session (applied fun _ _ => none) (applied (late queries)) :=
    log_faults_withstood chain (late queries) config session honest 20 2 none Fork.root delta
      honestDelta
  have late_two : ∀ hash, ∃ count < 3, late 2 hash count = none :=
    fun hash => ⟨2, by decide, if_neg fun isLate => absurd isLate.2 (by decide)⟩
  have late_three : ∀ count < 3, late 3 "left 2" count = some (.transport "") :=
    fun count isLow => if_pos ⟨rfl, isLow⟩
  have fails : ∀ count < 3, (late 3 "left 2" count).isSome := fun count isLow => by
    rw [late_three count isLow]
    rfl
  have only : ∀ hash, (∀ count < 3, (late 3 hash count).isSome) → hash = "left 2" := by
    intro hash isLate
    by_contra different
    have isNone : late 3 hash 0 = none := if_neg fun both => different both.1
    have isSome := isLate 0 (by decide)
    rw [isNone] at isSome
    cases isSome
  rcases (withstands 2).1.answered fun hash _ => late_two hash with ⟨zoneEnds, zoneLeaves, -⟩
  rcases (withstands 2).2.answered fun hash _ => late_two hash with ⟨deltaEnds, deltaLeaves, -⟩
  rcases (withstands 3).1.failed "left 2" (by rw [zoneAsks]; decide) fails with
    ⟨front, first, back, error, split, isLate, isError, zoneFails, -, -, zoneSpares, zoneEntry,
      zoneEvents⟩
  cases only first isLate
  cases (late_three 2 (by decide)).symm.trans isError
  have apart : [] ++ "left 2" :: ["left 3"] = front ++ "left 2" :: back := zoneAsks.symm.trans split
  rcases (List.append_cons_inj_of_notMem (by decide) (by decide)).mp apart with ⟨-, -, rfl⟩
  rcases (withstands 3).2.failed "left 2" (by rw [deltaAsks]; decide) fails with
    ⟨before, first, behind, error, splitDelta, isLate, isError, deltaFails, -, -,
      deltaSpares, deltaEntry, deltaEvents⟩
  cases only first isLate
  cases (late_three 2 (by decide)).symm.trans isError
  have apart : ["left 1"] ++ "left 2" :: ["left 3"] = before ++ "left 2" :: behind :=
    deltaAsks.symm.trans splitDelta
  rcases (List.append_cons_inj_of_notMem (by decide) (by decide)).mp apart with ⟨-, -, rfl⟩
  exact ⟨honest, honestDelta, zoneAsks, deltaAsks, by decide +kernel, zoneEnds, zoneLeaves,
    by decide +kernel, deltaEnds, deltaLeaves, zoneFails, zoneEntry, zoneEvents,
    zoneSpares _ List.mem_cons_self, deltaFails, deltaEntry, deltaEvents, by decide +kernel,
    deltaSpares _ List.mem_cons_self⟩

end Session

end ReorgSync
