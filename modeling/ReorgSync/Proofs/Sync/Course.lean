import ReorgSync.Proofs.Sync.Lookup
import ReorgSync.Proofs.Sync.Resume

namespace ReorgSync

/-! On its way a synchronisation may change what is stored many times, but never what
will become of it. Each of its parts keeps that, wherever it is cut off, and leads to
where the next part begins unless something fails. -/

namespace Session

open Routine (Tries Seeks)

/-- A session that goes on from a start: the same will become of both, and nothing was
changed that did not have to be. -/
structure OnCourse (chain : StillChain) (config : Config) (start session : Session Entry) :
    Prop where
  completion_eq :
    chain.completion? config session.entry = chain.completion? config start.entry
  unchanged : chain.IsComplete start.entry →
    session.entry = start.entry ∧ session.events = start.events
  isAt : session.follower.IsAt chain (max config.maxBlockBacklog 1)
  follower_eq : start.follower.window.head? = some chain.head →
    session.follower = start.follower
  known : session.isIdentified = true → session.entry.identity = some chain.identity

variable {chain : StillChain} {mayFail : Prop} {config : Config} {start session : Session Entry}
  {origin : Nat} {last : Option Block}

namespace OnCourse

theorem enter (onCourse : OnCourse chain config start session) (phase : Phase) :
    OnCourse chain config start { session with phase } :=
  ⟨onCourse.completion_eq, onCourse.unchanged, onCourse.isAt, onCourse.follower_eq,
    onCourse.known⟩

theorem store (onCourse : OnCourse chain config start session) {entry : Entry}
    (unfinished : ¬ chain.IsComplete session.entry)
    (completion_eq : chain.completion? config entry = chain.completion? config session.entry)
    (known : session.isIdentified = true → entry.identity = some chain.identity)
    (events : Feed Event) : OnCourse chain config start { session with entry, events } where
  completion_eq := completion_eq.trans onCourse.completion_eq
  unchanged complete := by
    rw [← (onCourse.unchanged complete).1] at complete
    exact absurd complete unfinished
  isAt := onCourse.isAt
  follower_eq := onCourse.follower_eq
  known := known

theorem fill (onCourse : OnCourse chain config start session)
    (empty : session.follower.window.blocks = []) {window : Window}
    (isHead : window.head? = some chain.head)
    (onChain : ∀ block ∈ window.blocks, block ∈ chain.blocks) :
    OnCourse chain config start
      { session with follower := { session.follower with window } } where
  completion_eq := onCourse.completion_eq
  unchanged := onCourse.unchanged
  isAt := ⟨onCourse.isAt.backlog_eq, onChain, .inr isHead⟩
  follower_eq filled := by
    rw [← onCourse.follower_eq filled, Window.head?, empty] at filled
    contradiction
  known := onCourse.known

end OnCourse

/-! ## Storing -/

theorem tries_changeEntry {change : Entry → Except SyncError Entry}
    {invariant : Session Entry → Prop} (holds : invariant session)
    (fails : ∀ error, change session.entry = .error error → mayFail)
    (changed : ∀ entry, change session.entry = .ok entry → invariant { session with entry }) :
    (changeEntry change).Tries chain mayFail invariant (fun _ after => ∃ entry,
      change session.entry = .ok entry ∧ after = { session with entry }) session := by
  apply Tries.after_seeks holds (seeks_readEntry fails)
  intro entry succeeds
  exact Tries.modify (changed entry succeeds) ⟨entry, succeeds, rfl⟩

/-- An event is applied and then published, and both keep an unfinished session on its
course. -/
theorem tries_apply {event : Event} (onCourse : OnCourse chain config start session)
    (unfinished : ¬ chain.IsComplete session.entry)
    (fails : ∀ error, session.entry.apply event = .error error → mayFail)
    (kept : ∀ entry, session.entry.apply event = .ok entry →
      chain.completion? config entry = chain.completion? config session.entry) :
    (Session.apply event).Tries chain mayFail (OnCourse chain config start)
      (fun _ after => session.entry.apply event = .ok after.entry ∧
        after.follower = session.follower) session := by
  -- Between the two writes the entry is already the new one, but not yet its events.
  have stores : ∀ entry, session.entry.apply event = .ok entry → ∀ events,
      OnCourse chain config start { session with entry, events } := by
    intro entry applied
    apply onCourse.store unfinished (kept entry applied)
    intro isIdentified
    rw [(Entry.apply_eq_ok.mp applied).2]
    exact onCourse.known isIdentified
  have isApply := Entry.apply_eq session.entry event
  apply Tries.andThen (tries_changeEntry onCourse
    (fun error failed => fails error (isApply.symm.trans failed))
    fun entry applied => stores entry (isApply.symm.trans applied) session.events)
  intro _ after _ isMet
  rcases isMet with ⟨entry, applied, rfl⟩
  have applied := isApply.symm.trans applied
  exact Tries.modify (stores entry applied _) ⟨applied, rfl⟩

/-! ## The chain's identity -/

theorem tries_identify (onCourse : OnCourse chain config start session)
    (fails : chain.completion? config session.entry = none → mayFail) :
    identify.Tries chain mayFail (OnCourse chain config start)
      (fun _ after => after.entry.identity = some chain.identity) session := by
  have entered := onCourse.enter .preflight
  have genesis : chain.reply (.blockByTag (.number 0)) = .ok (some chain.genesis) :=
    congrArg Except.ok StillChain.getElem?_genesis
  have chainId : chain.reply .chainId = .ok chain.chainId := rfl
  apply Tries.modify_andThen entered
  apply Tries.after_finds entered (seeks_call genesis)
  apply Tries.after_seeks entered (seeks_blockOr fun missing => nomatch missing)
  intro _ isGenesis
  cases isGenesis
  apply Tries.after_finds entered (seeks_call chainId)
  apply Tries.after_seeks entered (seeks_readEntry fun _ failed => nomatch failed)
  intro recorded? isRecorded
  have recorded := Except.ok.inj isRecorded
  cases recorded? with
  | none =>
      have unfinished : ¬ chain.IsComplete session.entry := by
        intro complete
        rw [complete.known] at recorded
        contradiction
      have stored := entered.store unfinished (StillChain.completion?_record recorded)
        (fun _ => rfl) session.events
      refine (tries_changeEntry entered (fun _ failed => nomatch failed) ?_).mono ?_
      · intro _ isRecord
        cases isRecord
        exact stored
      · intro _ after _ isMet
        rcases isMet with ⟨_, ⟨⟩, rfl⟩
        rfl
  | some other =>
      have mismatch : other ≠ chain.identity → mayFail := fun differs =>
        fails (StillChain.completion?_of_identity_ne recorded differs)
      dsimp only
      split
      case isTrue otherChain =>
        exact Tries.fail entered (mismatch fun same => otherChain (by rw [same]; rfl))
      case isFalse sameChain =>
        split
        case isTrue otherGenesis =>
          exact Tries.fail entered (mismatch fun same => otherGenesis (by rw [same]; rfl))
        case isFalse sameGenesis =>
          rcases other with ⟨otherId, otherHash⟩
          rw [not_not] at sameChain sameGenesis
          cases sameChain
          cases sameGenesis
          exact Tries.done entered recorded

theorem tries_identifyOnce (onCourse : OnCourse chain config start session)
    (fails : chain.completion? config session.entry = none → mayFail) :
    identifyOnce.Tries chain mayFail (OnCourse chain config start)
      (fun _ after => after.entry.identity = some chain.identity) session := by
  apply Tries.get_andThen
  split
  case isTrue isIdentified => exact Tries.done onCourse (onCourse.known isIdentified)
  case isFalse =>
    apply Tries.andThen (tries_identify onCourse fails)
    intro _ after onCourse known
    apply Tries.modify
    · exact ⟨onCourse.completion_eq, onCourse.unchanged, onCourse.isAt, onCourse.follower_eq,
        fun _ => known⟩
    · exact known

/-! ## Where to go on -/

/-- A session whose entry goes on at a height, behind its last block. -/
structure Stands (chain : StillChain) (config : Config) (origin : Nat) (last : Option Block)
    (session : Session Entry) : Prop where
  standsAt : chain.StandsAt config session.entry origin
  ends : session.entry.lastBlock = last
  known : session.entry.identity = some chain.identity

/-- An entry that was moved to a block of the chain goes on behind it. -/
theorem stands_of_apply {block : Block} {event : Event} (onChain : block ∈ chain.blocks)
    (isBlock : event.block = block) (known : session.entry.identity = some chain.identity)
    (after : Session Entry) (applied : session.entry.apply event = .ok after.entry) :
    Stands chain config (block.number + 1) (some block) after := by
  have isAfter := (Entry.apply_eq_ok.mp applied).2
  have ends : after.entry.lastBlock = some block := by rw [isAfter, ← isBlock]
  have identity : after.entry.identity = session.entry.identity := by rw [isAfter]
  have found := (BlockTree.mem_path_iff chain.contains).mp onChain
  exact ⟨StillChain.standsAt_behind_block ends found, ends, identity.trans known⟩

theorem tries_reconcilePosition {last : Block} (onCourse : OnCourse chain config start session)
    (ends : session.entry.lastBlock = some last)
    (known : session.entry.identity = some chain.identity)
    (fails : chain.completion? config session.entry = none → mayFail) :
    (reconcilePosition last).Tries chain mayFail (OnCourse chain config start)
      (fun found after => Stands chain config (found.number + 1) (some found) after) session := by
  have height : chain.reply .height = .ok chain.head.number := rfl
  -- At each question the completion is computed one step further, with the same answer.
  have completion := @StillChain.completion?_of_identity chain config _ known
  simp only [StillChain.standing?, ends] at completion
  apply Tries.after_finds onCourse (seeks_call height)
  split
  case isTrue above =>
    have missing : chain.blocks[last.number]? = none := by
      rw [List.getElem?_eq_none_iff, StillChain.length_blocks]
      exact above
    rw [missing] at completion
    exact Tries.fail onCourse (fails completion)
  case isFalse =>
    apply Tries.after_seeks onCourse (seeks_blockAt fun missing => by
      rw [missing] at completion
      exact fails completion)
    intro canonical found
    simp only [found, Option.bind_eq_bind, Option.bind_some] at completion
    split
    case isTrue same =>
      exact Tries.done onCourse ⟨StillChain.standsAt_behind ends found same, ends, known⟩
    case isFalse differs =>
      rw [if_neg differs] at completion
      have unfinished : ¬ chain.IsComplete session.entry :=
        fun complete => differs (complete.hash_eq ends found)
      apply Tries.get_andThen
      rw [onCourse.isAt.backlog_eq]
      apply Tries.after_seeks onCourse (seeks_commonAncestor fun apart => by
        rw [apart] at completion
        exact fails completion)
      intro anchor meets
      have onChain := BlockTree.mem_path_of_meeting? chain.contains
        (List.mem_of_getElem? found) meets
      rw [meets, Option.bind_some, Entry.cutBehind] at completion
      rw [Routine.sum_eq_done (chain.tree.height_lt
        (BlockTree.contains_of_mem_path chain.contains onChain))]
      apply Tries.after_seeks onCourse (seeks_readEntry fun error failed => by
        rw [failed] at completion
        exact fails completion)
      intro point isPoint
      rw [isPoint] at completion
      simp only [bind, Except.bind] at completion
      apply Tries.andThen (tries_apply onCourse unfinished
        (fun error failed => fails (by rw [completion, failed]; rfl)) ?_)
      · intro _ after onCourse isMet
        exact Tries.done onCourse (stands_of_apply onChain rfl known after isMet.1)
      · intro entry applied
        have stands : Stands chain config (anchor.number + 1) (some anchor)
            { session with entry } := stands_of_apply onChain rfl known _ applied
        rw [stands.standsAt.completion?_eq stands.known, completion, applied]
        rfl

theorem seeks_start {setup : Setup} (noHints : setup.hasHints = false)
    (fails : chain.head.number < setup.config.startBlock.getD 0 → mayFail) :
    (Session.start setup).Seeks chain mayFail (fun origin =>
      origin = setup.config.startBlock.getD 0 ∧ origin ≤ chain.head.number) session := by
  have height : chain.reply .height = .ok chain.head.number := rfl
  rw [Session.start]
  cases isStart : setup.config.startBlock with
  | none =>
      rw [noHints]
      exact Seeks.done ⟨rfl, Nat.zero_le _⟩
  | some number =>
      rw [isStart] at fails
      apply Seeks.andThen_finds (seeks_call height)
      split
      case isTrue above => exact Seeks.fail (fails above)
      case isFalse within => exact Seeks.done ⟨rfl, Nat.not_lt.mp within⟩

theorem tries_origin {setup : Setup} (noHints : setup.hasHints = false)
    (onCourse : OnCourse chain setup.config start session)
    (known : session.entry.identity = some chain.identity)
    (fails : chain.completion? setup.config session.entry = none → mayFail) :
    (Session.origin setup).Tries chain mayFail (OnCourse chain setup.config start)
      (fun place after => Stands chain setup.config place.1 place.2 after) session := by
  apply Tries.after_seeks onCourse (seeks_readEntry fun _ failed => nomatch failed)
  intro last? isLast
  have ends := Except.ok.inj isLast
  cases last? with
  | some last =>
      apply Tries.andThen (tries_reconcilePosition onCourse ends known fails)
      intro found after onCourse stands
      rw [Routine.sum_eq_done (stands.standsAt.origin_lt stands.ends)]
      exact Tries.done onCourse stands
  | none =>
      have failsThen : chain.head.number < setup.config.startBlock.getD 0 → mayFail := by
        intro above
        apply fails
        rw [StillChain.completion?_of_identity known, StillChain.standing?, ends]
        simp [above]
      apply Tries.after_seeks onCourse (seeks_start noHints failsThen)
      intro origin isStart
      rcases isStart with ⟨rfl, within⟩
      exact Tries.done onCourse ⟨StillChain.standsAt_start ends within, ends, known⟩

/-! ## Ranges -/

/-- A backfill that goes on where its entry does. -/
structure Proceeds (chain : StillChain) (config : Config) (state : Backfill)
    (session : Session Entry) : Prop where
  stands : Stands chain config state.origin state.last session
  batch_le : state.batch ≤ config.batchSize

theorem seeks_isSettled {state : Backfill} (proceeds : Proceeds chain config state session) :
    (isSettled state).Seeks chain mayFail (· = true) session := by
  rw [isSettled]
  split
  case h_1 stored _ ends =>
    rcases proceeds.stands.standsAt.behind (proceeds.stands.ends.trans ends) with
      ⟨-, canonical, found, same⟩
    have replies : chain.reply (.blockByTag (.number stored.number)) = .ok (some canonical) :=
      congrArg Except.ok found
    apply Seeks.andThen_finds (seeks_call replies)
    exact Seeks.done (beq_iff_eq.mpr same)
  case h_2 => exact Seeks.done rfl

/-- A range may be refused, or what it holds is stored. -/
theorem tries_backfillRange {state : Backfill} {rangeEnd : Nat}
    (onCourse : OnCourse chain config start session)
    (proceeds : Proceeds chain config state session) (ordered : state.origin ≤ rangeEnd)
    (short : rangeEnd ≤ state.origin + state.batch) (below : rangeEnd ≤ chain.head.number)
    (fits : mayFail ∨ Backfill.Fits config) :
    (backfillRange config state rangeEnd).Tries chain mayFail (OnCourse chain config start)
      (fun next after => Proceeds chain config next after ∧
        remaining chain config next < remaining chain config state) session := by
  have stands := proceeds.stands
  have unfinished := stands.standsAt.not_isComplete (Nat.le_trans ordered below)
  apply Tries.after_seeks onCourse (seeks_rangeLogs config.filter state.origin rangeEnd)
  intro reply answered
  rcases reply with _ | error | logs
  · exact Tries.fail onCourse answered
  · dsimp only
    split
    case isTrue refused =>
      have batch_le := Nat.le_trans (Nat.div_le_self _ 2) proceeds.batch_le
      exact Tries.done onCourse ⟨⟨stands, batch_le⟩, remaining_shrink_lt refused.2⟩
    case isFalse other =>
      -- Of the errors, calm surroundings only know refusals, and those are followed up.
      apply Tries.fail onCourse
      rcases answered with fails | ⟨isTooMuch, refused⟩
      · exact fails
      · exact absurd ⟨isTooMuch, batch_ne_zero_of_refused short refused⟩ other
  · rcases StillChain.exists_block below with ⟨block, found⟩
    apply Tries.after_seeks onCourse (seeks_blockAt fun missing => by
      rw [missing] at found
      contradiction)
    intro other foundThen
    cases found.symm.trans foundThen
    have onChain := List.mem_of_getElem? found
    have number := StillChain.number_of_getElem? found
    apply Tries.andThen (tries_apply onCourse unfinished (fun _ failed => nomatch failed) ?_)
    · intro _ after onCourse isMet
      have standsThen : Stands chain config (block.number + 1) (some block) after :=
        stands_of_apply onChain rfl stands.known after isMet.1
      rw [number] at standsThen
      have low := Nat.lt_of_le_of_lt (Nat.succ_le_succ below) (chain.tree.height_lt chain.contains)
      rw [Backfill.checkAdvance_eq low]
      split
      case isTrue =>
        exact Tries.done onCourse ⟨⟨standsThen, Backfill.grown_le config _⟩,
          remaining_advance_lt ordered below⟩
      case isFalse tooLarge =>
        have outgrown : ¬ Backfill.Fits config := fun fits =>
          tooLarge (Nat.lt_of_le_of_lt (Nat.add_le_add_right proceeds.batch_le _) fits)
        exact Tries.halted onCourse (fits.resolve_right outgrown)
    · intro entry applied
      have standsThen : Stands chain config (block.number + 1) (some block)
          { session with entry } := stands_of_apply onChain rfl stands.known _ applied
      rw [number] at standsThen
      cases applied
      rw [stands.standsAt.completion?_eq stands.known,
        standsThen.standsAt.completion?_eq standsThen.known, answered]
      exact congrArg some (StillChain.filled_append_range ordered found)

theorem tries_backfillStep {state : Backfill} (onCourse : OnCourse chain config start session)
    (proceeds : Proceeds chain config state session) (fits : mayFail ∨ Backfill.Fits config) :
    (backfillStep config state).Tries chain mayFail (OnCourse chain config start) (fun
      | .inl next => fun after => Proceeds chain config next after ∧
          remaining chain config next < remaining chain config state
      | .inr reached => fun after => ∃ state, reached = some state ∧
          Proceeds chain config state after) session := by
  have height : chain.reply .height = .ok chain.head.number := rfl
  apply Tries.after_seeks onCourse Tries.checkCanceled
  intro _ _
  apply Tries.after_finds onCourse (seeks_isSettled proceeds)
  apply Tries.get_andThen
  apply Tries.after_finds onCourse (seeks_call height)
  rw [Backfill.checkNear_eq (chain.tree.height_lt chain.contains)]
  change (ite _ _ _ : Routine (Session Entry) _).Tries _ _ _ _ _
  split
  case isTrue => exact Tries.done onCourse ⟨_, rfl, proceeds.stands, proceeds.batch_le⟩
  case isFalse far =>
    have bounded := Nat.lt_of_succ_lt (chain.tree.height_lt chain.contains)
    rcases Backfill.rangeEnd_settled far bounded with ⟨ordered, isBelow⟩
    have short := Backfill.rangeEnd_le { state with isVerified := true } chain.head.number
      session.follower.backlog
    have entered : Proceeds chain config { state with isVerified := true }
        { session with phase := .backfilling } :=
      ⟨⟨proceeds.stands.standsAt, proceeds.stands.ends, proceeds.stands.known⟩,
        proceeds.batch_le⟩
    apply Tries.modify_andThen (onCourse.enter .backfilling)
    rw [Backfill.checkEnd_eq far]
    apply Tries.andThen (tries_backfillRange (onCourse.enter .backfilling) entered ordered short
      (by omega) fits)
    intro next after onCourse holds
    exact Tries.done onCourse holds

theorem tries_backfill {turns : Nat} (onCourse : OnCourse chain config start session)
    (stands : Stands chain config origin last session)
    (enough : mayFail ∨
      (chain.head.number + 2) * (config.batchSize + 2) ≤ turns ∧ Backfill.Fits config) :
    (backfill config turns origin last).Tries chain mayFail (OnCourse chain config start)
      (fun reached after => ∃ state, reached = some state ∧ Proceeds chain config state after)
      session := by
  refine Tries.iterate (Proceeds chain config) (remaining chain config) ?_
    (enough.imp_right fun enough => remaining_lt_of_enough enough.1) onCourse
      ⟨stands, Nat.le_refl _⟩
  intro state session onCourse proceeds
  refine (tries_backfillStep onCourse proceeds (enough.imp_right And.right)).mono fun result after _ holds => ?_
  cases result with
  | inl next => exact holds
  | inr reached => exact holds

/-! ## Block by block -/

/-- A session that has come to the head. -/
structure IsDone (chain : StillChain) (reached : Block) (session : Session Entry) : Prop where
  complete : chain.IsComplete session.entry
  ends : session.entry.lastBlock = some reached
  isHead : session.follower.window.head? = some chain.head

theorem Stands.linked {oldest : Block} {newer : List Block}
    (stands : Stands chain config origin last session)
    (isDropped : oldest :: newer = chain.blocks.drop origin) :
    (last.all fun last => oldest.parentHash == last.hash) = true := by
  cases last with
  | none => rfl
  | some last =>
      rcases stands.standsAt.behind stands.ends with ⟨rfl, canonical, found, same⟩
      have extending := StillChain.extends_of_split (StillChain.getLast?_take_succ found)
        (by rw [← isDropped]; rfl)
      rw [Option.all_some, beq_iff_eq, extending.2, same]

/-- To add all blocks that are left is to complete the entry. -/
theorem tries_apply_rest (onCourse : OnCourse chain config start session)
    (stands : Stands chain config origin last session) (below : origin ≤ chain.head.number)
    (isHead : session.follower.window.head? = some chain.head) :
    (Session.apply (.append (chain.tree.logsAlong config.filter (chain.blocks.drop origin))
      chain.head)).Tries chain mayFail (OnCourse chain config start)
        (fun _ after => IsDone chain chain.head after) session := by
  have onChain : chain.head ∈ chain.blocks := BlockTree.self_mem_path chain.contains
  have unfinished := stands.standsAt.not_isComplete below
  refine (tries_apply onCourse unfinished (fun _ failed => nomatch failed) ?_).mono ?_
  · intro entry applied
    have standsThen : Stands chain config (chain.head.number + 1) (some chain.head)
        { session with entry } := stands_of_apply onChain rfl stands.known _ applied
    rw [stands.standsAt.completion?_eq stands.known,
      standsThen.standsAt.completion?_eq standsThen.known,
      StillChain.filled_of_head_lt (Nat.lt_succ_self _), StillChain.filled, if_pos below]
    exact congrArg some (Except.ok.inj applied).symm
  · intro _ after _ isMet
    have standsThen : Stands chain config (chain.head.number + 1) (some chain.head) after :=
      stands_of_apply onChain rfl stands.known after isMet.1
    refine ⟨standsThen.standsAt.isComplete standsThen.known standsThen.ends
      (Nat.lt_succ_self _), standsThen.ends, ?_⟩
    rw [isMet.2]
    exact isHead

theorem tries_hotZone {turns : Nat} (onCourse : OnCourse chain config start session)
    (stands : Stands chain config origin last session)
    (enough : mayFail ∨ chain.head.number < turns) :
    (hotZone config turns origin last).Tries chain mayFail (OnCourse chain config start)
      (fun reached after => ∃ block, reached = some block ∧ IsDone chain block after)
      session := by
  apply Tries.andThen (tries_refreshHead onCourse.isAt onCourse fun empty _ => onCourse.fill empty)
  intro head after onCourse isMet
  rcases isMet with ⟨rfl, entry, isHead⟩
  have stands : Stands chain config origin last after := by
    refine ⟨?_, ?_, ?_⟩ <;> rw [entry]
    · exact stands.standsAt
    · exact stands.ends
    · exact stands.known
  split
  case isTrue above =>
    cases last with
    | some block =>
        have complete := stands.standsAt.isComplete stands.known stands.ends above
        exact Tries.done onCourse ⟨block, rfl, complete, stands.ends, isHead⟩
    | none =>
        -- A new entry starts no higher than the head.
        have within := (stands.standsAt.within stands.ends).2
        omega
  case isFalse remaining =>
    have below := Nat.not_lt.mp remaining
    have entered := onCourse.enter .hotZone
    have standsThen : Stands chain config origin last { after with phase := .hotZone } :=
      ⟨stands.standsAt, stands.ends, stands.known⟩
    apply Tries.modify_andThen entered
    apply Tries.after_seeks entered (seeks_descend entered.isAt.onChain below enough)
    intro run isDropped
    rcases run with ⟨oldest, newer⟩
    show (if _ then _ else _ : Routine (Session Entry) (Option Block)).Tries _ _ _ _ _
    rw [if_pos (stands.linked isDropped), isDropped]
    apply Tries.after_finds entered (seeks_logsOfBlocks config _)
    apply Tries.andThen (tries_apply_rest entered standsThen below isHead)
    intro _ after onCourse isDone
    exact Tries.done onCourse ⟨chain.head, rfl, isDone⟩

/-! ## The whole -/

variable {setup : Setup} {turns : Nat}

theorem tries_round (noHints : setup.hasHints = false)
    (onCourse : OnCourse chain setup.config start session)
    (known : session.entry.identity = some chain.identity)
    (fails : chain.completion? setup.config start.entry = none → mayFail)
    (enough : mayFail ∨
      (chain.head.number + 2) * (setup.config.batchSize + 2) ≤ turns ∧ Backfill.Fits setup.config) :
    (round setup turns).Tries chain mayFail (OnCourse chain setup.config start)
      (fun reached after => ∃ block, reached = some block ∧ IsDone chain block after)
      session := by
  have most : chain.head.number + 2 ≤
      (chain.head.number + 2) * (setup.config.batchSize + 2) :=
    Nat.le_mul_of_pos_right _ (Nat.succ_pos _)
  rw [← onCourse.completion_eq] at fails
  apply Tries.andThen (tries_origin noHints onCourse known fails)
  intro place after onCourse stands
  apply Tries.andThen (tries_backfill onCourse stands enough)
  intro reached after onCourse isMet
  rcases isMet with ⟨state, rfl, proceeds⟩
  exact tries_hotZone onCourse proceeds.stands (enough.imp_right fun _ => by omega)

theorem tries_rounds (succeeds : (round setup turns).Tries chain mayFail
      (OnCourse chain setup.config start)
      (fun reached after => ∃ block, reached = some block ∧ IsDone chain block after) session)
    (left past : Nat) :
    (rounds setup turns left past).Tries chain mayFail (OnCourse chain setup.config start)
      (IsDone chain) session := by
  cases left with
  | zero =>
      apply Tries.andThen succeeds
      intro reached after onCourse isMet
      rcases isMet with ⟨block, rfl, isDone⟩
      exact Tries.done onCourse isDone
  | succ left =>
      apply Tries.andThen succeeds
      intro reached after onCourse isMet
      rcases isMet with ⟨block, rfl, isDone⟩
      exact Tries.done onCourse isDone

/-- A synchronisation stays on course as far as it comes, and comes to the head unless
something fails. -/
theorem tries_sync (noHints : setup.hasHints = false)
    (onCourse : OnCourse chain setup.config start session)
    (fails : chain.completion? setup.config start.entry = none → mayFail)
    (enough : mayFail ∨
      (chain.head.number + 2) * (setup.config.batchSize + 2) ≤ turns ∧ Backfill.Fits setup.config) :
    (sync setup turns).Tries chain mayFail (OnCourse chain setup.config start) (IsDone chain)
      session := by
  have caughtUp : (catchUp setup turns).Tries chain mayFail (OnCourse chain setup.config start)
      (IsDone chain) session := by
    apply Tries.andThen (tries_identifyOnce onCourse (by rwa [onCourse.completion_eq]))
    intro _ after onCourse known
    exact tries_rounds (tries_round noHints onCourse known fails enough) _ _
  apply Tries.andThen (Tries.attempt caughtUp)
  intro outcome after onCourse isMet
  cases outcome with
  | ok block => exact Tries.done onCourse isMet
  | error error =>
      have entered := onCourse.enter (phaseAfter error)
      exact Tries.modify_andThen entered (Tries.fail entered isMet)

end Session

end ReorgSync
