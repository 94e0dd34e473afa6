import ReorgSync.Proofs.Sync.Backfill
import ReorgSync.Proofs.Sync.Position
import ReorgSync.Sync.Catchup

namespace ReorgSync

/-! On a chain that stands still an entry is taken back to where it left the chain,
and the ranges behind that are stored up to the newest blocks. In between, the entry
always holds what lies below some height. -/

namespace Session

open Routine StillChain

variable {chain : StillChain} {config : Config} {session : Session Entry}
  {follower : Follower} {block : Block} {origin : Nat} {last : Option Block}

/-! ## Where to go on -/

theorem attains_identify
    (known : ∀ recorded, session.entry.identity = some recorded → recorded = chain.identity) :
    identify.Attains chain.surroundings (fun _ after _ =>
      after.entry = { session.entry with identity := some chain.identity } ∧
        after.follower = session.follower) session () := by
  have genesis : chain.reply (.blockByTag (.number 0)) = .ok (some chain.genesis) :=
    congrArg Except.ok getElem?_genesis
  apply Attains.bind
  apply Attains.modify
  apply Attains.bind
  apply attains_call genesis
  apply Attains.bind
  apply Attains.done
  apply Attains.bind
  apply attains_call rfl
  apply Attains.bind
  apply attains_readEntry
  · exact rfl
  cases recorded : session.entry.identity with
  | none =>
      apply attains_changeEntry
      · exact rfl
      exact ⟨rfl, rfl⟩
  | some identity =>
      cases known identity recorded
      simp only [identity, ne_eq, not_true_eq_false, if_false]
      apply Attains.done
      refine ⟨?_, rfl⟩
      show session.entry = { session.entry with identity := some chain.identity }
      rw [← recorded]

theorem attains_identifyOnce (isNew : session.isIdentified = false)
    (known : ∀ recorded, session.entry.identity = some recorded → recorded = chain.identity) :
    identifyOnce.Attains chain.surroundings (fun _ after _ =>
      after.entry = { session.entry with identity := some chain.identity } ∧
        after.follower = session.follower) session () := by
  apply Attains.bind
  apply Attains.get
  rw [isNew]
  apply Attains.andThen (attains_identify known)
  intro _ after _ holds
  exact .modify holds

/-- Two branches that meet within so many steps are walked back to a common block. -/
theorem attains_commonAncestor {backlog steps : Nat} {top stored canonical ancestor : Block}
    (contains : chain.tree.Contains stored) (canonicalMember : canonical ∈ chain.blocks)
    (level : stored.number = canonical.number) (onPath : ancestor ∈ chain.tree.path stored)
    (onChain : ancestor ∈ chain.blocks) (near : stored.number ≤ ancestor.number + steps) :
    (commonAncestor top backlog steps stored canonical).Attains chain.surroundings
      (fun found after _ => found ∈ chain.tree.path stored ∧ found ∈ chain.blocks ∧
        after = session) session () := by
  rcases BlockTree.exists_meeting? contains chain.contains canonicalMember level onPath onChain
    near with ⟨found, meets, foundOnPath⟩
  apply Routine.Seeks.attains (seeks_commonAncestor fun apart => nomatch apart.symm.trans meets)
  intro other isOther
  cases meets.symm.trans isOther
  exact ⟨foundOnPath, BlockTree.mem_path_of_meeting? chain.contains canonicalMember meets, rfl⟩

/-- What was stored of a branch is cut down to what lies on the chain. -/
theorem attains_reconcilePosition (contains : chain.tree.Contains block)
    (stored : session.entry = {
      logs := chain.tree.logsAlong config.filter (chain.tree.path block)
      lastBlock := some block
      identity := some chain.identity })
    (below : block.number ≤ chain.head.number) {ancestor : Block}
    (onPath : ancestor ∈ chain.tree.path block) (onChain : ancestor ∈ chain.blocks)
    (near : block.number ≤ ancestor.number + session.follower.backlog) :
    (reconcilePosition block).Attains chain.surroundings (fun found after _ =>
      StoredBelow chain config.filter session.follower (found.number + 1) (some found) after)
      session () := by
  rcases exists_block below with ⟨canonical, found⟩
  have canonicalMember := List.mem_of_getElem? found
  have stands : ∀ {found : Block} {after : Session Entry}, found ∈ chain.blocks →
      after.entry = {
        logs := chain.tree.logsAlong config.filter (chain.tree.path found)
        lastBlock := some found
        identity := some chain.identity } → after.follower = session.follower →
      StoredBelow chain config.filter session.follower (found.number + 1) (some found) after := by
    intro found after member entry follower
    have height := BlockTree.number_le_of_mem_path chain.contains member
    refine ⟨?_, ?_, by omega, follower⟩
    · rw [entry, entryBelow_succ member]
    · have isThere := (BlockTree.mem_path_iff chain.contains).mp member
      rw [getLast?_take_succ isThere]
  apply Attains.bind
  apply attains_call rfl
  rw [if_neg (Nat.not_lt.mpr below)]
  apply Attains.bind
  apply attains_blockAt found
  split
  case isTrue same =>
    have meets := BlockTree.eq_of_hash_eq (contains_of_getElem? found) contains same
    rw [meets] at canonicalMember
    exact .done (stands canonicalMember stored rfl)
  case isFalse differs =>
    apply Attains.bind
    apply Attains.get
    apply Attains.andThen (attains_commonAncestor contains canonicalMember
      (number_of_getElem? found).symm onPath onChain near)
    intro base after _ holds
    rcases holds with ⟨basePath, baseChain, same⟩
    rw [same]
    have logs : session.entry.logs =
        chain.tree.logsAlong config.filter (chain.tree.path block) := by
      rw [stored]
    apply (attains_rollBack contains logs basePath).mono
    intro found after _ holds
    rcases holds with ⟨rfl, rfl⟩
    apply stands baseChain
    · rw [rolledBack, stored]
    · rfl

theorem attains_origin {setup : Setup} (noStart : setup.config.startBlock = none)
    (noHints : setup.hasHints = false)
    (resumes : chain.CanResume setup.config session.entry)
    (identified : session.entry.identity = some chain.identity)
    (deep : setup.config.maxBlockBacklog ≤ session.follower.backlog) :
    (Session.origin setup).Attains chain.surroundings (fun place after _ =>
      StoredBelow chain setup.config.filter session.follower place.1 place.2 after)
      session () := by
  apply Attains.bind
  apply attains_readEntry
  · exact rfl
  cases ends : session.entry.lastBlock with
  | none =>
      have starts : start setup = (.done 0 : Routine (Session Entry) Nat) := by
        rw [start, noStart, noHints]
        rfl
      have empty := (Entry.matches_of_no_lastBlock ends).mp resumes.entryMatches
      apply Attains.bind
      rw [starts]
      apply Attains.done
      apply Attains.done
      refine ⟨?_, rfl, Nat.zero_le _, rfl⟩
      rw [show session.entry = ⟨session.entry.logs, session.entry.lastBlock,
        session.entry.identity⟩ from rfl, empty, ends, identified]
      rfl
  | some last =>
      rcases (Entry.matches_of_lastBlock ends).mp resumes.entryMatches with ⟨contains, logs⟩
      rcases resumes.leaves last ends with ⟨ancestor, onPath, onChain, near⟩
      have stored : session.entry = ⟨chain.tree.logsAlong setup.config.filter
          (chain.tree.path last), some last, some chain.identity⟩ := by
        rw [← logs, ← ends, ← identified]
      apply Attains.andThen (attains_reconcilePosition contains stored
        (resumes.number_le last ends) onPath onChain (by omega))
      intro base after _ stands
      rw [Routine.sum_eq_done stands.origin_lt]
      exact .done stands

/-! ## Ranges -/

/-- A backfill that stands on the chain. -/
structure Progresses (chain : StillChain) (config : Config) (follower : Follower)
    (state : Backfill) (session : Session Entry) : Prop where
  stored : StoredBelow chain config.filter follower state.origin state.last session
  batch_le : state.batch ≤ config.batchSize

/-- What is left to do by ranges. A refusal makes the next range shorter, and an answer
leaves fewer heights; there are fewer refusals than lengths of ranges between two
answers. -/
def remaining (chain : StillChain) (config : Config) (state : Backfill) : Nat :=
  (chain.head.number + 1 - state.origin) * (config.batchSize + 2) + state.batch

/-- Before the first range there is less to do than `turns` that suffice for the whole
chain. -/
theorem remaining_lt_of_enough {turns : Nat}
    (enough : (chain.head.number + 2) * (config.batchSize + 2) ≤ turns) :
    remaining chain config { origin, last, batch := config.batchSize } < turns := by
  have most := Nat.mul_le_mul_right (config.batchSize + 2)
    (Nat.sub_le (chain.head.number + 1) origin)
  rw [Nat.succ_mul] at enough
  show (chain.head.number + 1 - origin) * (config.batchSize + 2) + config.batchSize < turns
  omega

theorem remaining_shrink_lt {state : Backfill} (wide : state.batch ≠ 0) :
    remaining chain config state.shrink < remaining chain config state :=
  Nat.add_lt_add_left (Nat.div_lt_self (Nat.pos_of_ne_zero wide) (by omega)) _

theorem remaining_advance_lt {state : Backfill} {rangeEnd : Nat}
    (ordered : state.origin ≤ rangeEnd) (below : rangeEnd ≤ chain.head.number) :
    remaining chain config (state.advance config block rangeEnd) <
      remaining chain config state := by
  have fewer : chain.head.number + 1 - (rangeEnd + 1) + 1 ≤
      chain.head.number + 1 - state.origin := by omega
  have less := Nat.mul_le_mul_right (config.batchSize + 2) fewer
  have batch := Backfill.grown_le config state.batch
  rw [Nat.succ_mul] at less
  show (chain.head.number + 1 - (rangeEnd + 1)) * (config.batchSize + 2) +
    Backfill.grown config state.batch <
      (chain.head.number + 1 - state.origin) * (config.batchSize + 2) + state.batch
  omega

/-- A range over one height is never refused. -/
theorem batch_ne_zero_of_refused {state : Backfill} {rangeEnd : Nat}
    (short : rangeEnd ≤ state.origin + state.batch)
    (refused : chain.limit.any (· < rangeEnd - state.origin)) : state.batch ≠ 0 := by
  rcases (Option.any_eq_true _ _).mp refused with ⟨limit, _, exceeded⟩
  rw [decide_eq_true_eq] at exceeded
  omega

theorem attains_isSettled {state : Backfill}
    (progresses : Progresses chain config follower state session)
    {met : Bool → Session Entry → Unit → Prop} (holds : met true session ()) :
    (isSettled state).Attains chain.surroundings met session () := by
  rw [isSettled]
  split
  case h_1 stored _ ends =>
    have isLast := progresses.stored.last_eq
    rw [ends] at isLast
    have member := List.mem_of_mem_take (List.mem_of_getLast? isLast.symm)
    have found := (BlockTree.mem_path_iff chain.contains).mp member
    have replies : chain.reply (.blockByTag (.number stored.number)) = .ok (some stored) :=
      congrArg Except.ok found
    apply Attains.bind
    apply attains_call replies
    apply Attains.done
    rw [beq_self_eq_true]
    exact holds
  case h_2 => exact .done holds

theorem attains_backfillRange {state : Backfill} {rangeEnd : Nat}
    (progresses : Progresses chain config follower state session)
    (ordered : state.origin ≤ rangeEnd) (short : rangeEnd ≤ state.origin + state.batch)
    (below : rangeEnd ≤ chain.head.number) (fits : Backfill.Fits config) :
    (backfillRange config state rangeEnd).Attains chain.surroundings (fun next after _ =>
      Progresses chain config follower next after ∧
        remaining chain config next < remaining chain config state) session () := by
  rcases exists_block below with ⟨block, found⟩
  by_cases refused : chain.limit.any (· < rangeEnd - state.origin)
  · have replies : chain.reply (.logs ⟨config.filter, .range state.origin rangeEnd⟩) =
        .error (.tooMuchData chain.refusal) := if_pos refused
    have wide := batch_ne_zero_of_refused short refused
    apply Attains.bind
    apply attains_reply replies
    show (if _ then _ else _ : Routine (Session Entry) Backfill).Attains _ _ _ _
    rw [if_pos ⟨rfl, wide⟩]
    apply Attains.done
    exact ⟨⟨progresses.stored, Nat.le_trans (Nat.div_le_self _ _) progresses.batch_le⟩,
      remaining_shrink_lt wide⟩
  · have replies : chain.reply (.logs ⟨config.filter, .range state.origin rangeEnd⟩) =
        .ok (chain.tree.logsAlong config.filter (chain.blocks.filter fun block =>
          decide (state.origin ≤ block.number ∧ block.number ≤ rangeEnd))) := if_neg refused
    apply Attains.bind
    apply attains_reply replies
    apply Attains.bind
    apply attains_blockAt found
    apply Attains.bind
    apply attains_apply
    · exact rfl
    have low := Nat.lt_of_le_of_lt (Nat.succ_le_succ below) (chain.tree.height_lt chain.contains)
    rw [Backfill.checkAdvance_of_fits low fits progresses.batch_le]
    apply Attains.done
    refine ⟨⟨⟨?_, ?_, Nat.succ_le_succ below, progresses.stored.follower_eq⟩,
      Backfill.grown_le config _⟩, ?_⟩
    · rw [progresses.stored.entry_eq]
      exact entryBelow_append_range ordered found
    · exact (getLast?_take_succ found).symm
    · exact remaining_advance_lt ordered below

theorem attains_backfillStep {state : Backfill}
    (progresses : Progresses chain config follower state session) (fits : Backfill.Fits config) :
    (backfillStep config state).Attains chain.surroundings (fun result after _ =>
      match result with
      | .inl next => Progresses chain config follower next after ∧
          remaining chain config next < remaining chain config state
      | .inr reached => ∃ state, reached = some state ∧
          Progresses chain config follower state after) session () := by
  apply Attains.bind
  apply attains_checkCanceled
  apply Attains.bind
  apply attains_isSettled progresses
  apply Attains.bind
  apply Attains.get
  apply Attains.bind
  apply attains_call rfl
  rw [Backfill.checkNear_eq (chain.tree.height_lt chain.contains)]
  change (ite _ _ _ : Routine (Session Entry) _).Attains _ _ _ _
  split
  case isTrue => exact .done ⟨_, rfl, progresses.stored, progresses.batch_le⟩
  case isFalse far =>
    have bounded := Nat.lt_of_succ_lt (chain.tree.height_lt chain.contains)
    rcases Backfill.rangeEnd_settled far bounded with ⟨ordered, isBelow⟩
    have short := Backfill.rangeEnd_le { state with isVerified := true } chain.head.number
      session.follower.backlog
    apply Attains.bind
    apply Attains.modify
    have entered : Progresses chain config follower { state with isVerified := true }
        { session with phase := .backfilling } :=
      ⟨⟨progresses.stored.entry_eq, progresses.stored.last_eq, progresses.stored.origin_le,
        progresses.stored.follower_eq⟩, progresses.batch_le⟩
    rw [Backfill.checkEnd_eq far]
    apply Attains.andThen (attains_backfillRange entered ordered short (by omega) fits)
    intro next after _ holds
    exact .done holds

/-- A backfill ends, whatever ranges the chain refuses. -/
theorem attains_backfill {turns : Nat}
    (stored : StoredBelow chain config.filter follower origin last session)
    (enough : (chain.head.number + 2) * (config.batchSize + 2) ≤ turns)
    (fits : Backfill.Fits config) :
    (backfill config turns origin last).Attains chain.surroundings (fun reached after _ =>
      ∃ state, reached = some state ∧ Progresses chain config follower state after)
      session () := by
  have starts : Progresses chain config follower { origin, last, batch := config.batchSize }
      session := ⟨stored, Nat.le_refl _⟩
  apply Attains.iterate (fun state session _ => Progresses chain config follower state session)
    (remaining chain config) _ (remaining_lt_of_enough enough) starts
  intro state session _ progresses
  apply (attains_backfillStep progresses fits).mono
  intro result after _ holds
  cases result with
  | inl next => exact holds
  | inr reached => exact holds

end Session

end ReorgSync
