import Mathlib.Algebra.Group.Nat.Defs
import ReorgSync.Proofs.Sync.Transcript

namespace ReorgSync

/-! A backfill asks for one range after another. Each of its turns that asks for one is an
attempt here, and a run of a backfill is the list of its attempts, as the node heard them.
However the node answers, the attempts that were stored tile the heights from the first one
on, and refused attempts are halved. -/

/-- What became of a question for a range. -/
inductive Attempt.Result where
  | canceled
  | refused (error : NodeError)
  /-- The logs were given, but nothing was stored. -/
  | dropped (logs : List Log)
  | stored (logs : List Log) (block : Block)

/-- A turn of a backfill that asks for a range. -/
structure Attempt where
  /-- What was asked before, about the block that was stored last. -/
  check : List Exchange
  /-- The head that was answered in this turn. -/
  head : Nat
  first : Nat
  final : Nat
  result : Attempt.Result

namespace Attempt

def Result.reply? : Result → Option (Except NodeError (List Log))
  | .canceled => none
  | .refused error => some (.error error)
  | .dropped logs => some (.ok logs)
  | .stored logs _ => some (.ok logs)

/-- A range is stored with the block that the node answers for its last height. -/
def Result.label (final : Nat) : Result → List Exchange
  | .stored _ block => [.blockAt final block]
  | _ => []

/-- What the node hears of an attempt. -/
def exchanges (filter : Filter) (attempt : Attempt) : List Exchange :=
  attempt.check ++
    [.headAt attempt.head,
      ⟨.logs ⟨filter, .range attempt.first attempt.final⟩, attempt.result.reply?⟩] ++
    attempt.result.label attempt.final

/-- What an attempt stores. -/
def event? (attempt : Attempt) : Option Event :=
  match attempt.result with
  | .stored logs block => some (.append logs block)
  | _ => none

def isStored (attempt : Attempt) : Bool :=
  attempt.event?.isSome

/-- The node could not answer that much at once. -/
def IsTooMuch (attempt : Attempt) : Prop :=
  ∃ error, attempt.result = .refused error ∧ error.isTooMuchData = true

/-- The batch of the attempt behind some others: a refusal halves it, and a success lets it
grow, up to the configured size. -/
def batchAfter (config : Config) (attempts : List Attempt) : Nat :=
  attempts.foldl (fun batch attempt =>
    if attempt.isStored then Backfill.grown config batch else batch / 2) config.batchSize

/-- The range of an attempt, for a backfill in a given state. -/
structure IsDue (backlog : Nat) (state : Backfill) (attempt : Attempt) : Prop where
  unranged : Unranged attempt.check
  first : attempt.first = state.origin
  final : attempt.final = state.rangeEnd attempt.head backlog
  ordered : attempt.first ≤ attempt.final
  settled : attempt.final + backlog ≤ attempt.head

theorem IsDue.within {backlog : Nat} {state : Backfill} {attempt : Attempt}
    (due : attempt.IsDue backlog state) : attempt.final ≤ attempt.first + state.batch := by
  rw [due.final, due.first]
  exact Backfill.rangeEnd_le state attempt.head backlog

/-- How the turn of an attempt ends, and what else is heard until then. -/
inductive Leaves (config : Config) (state : Backfill) (attempt : Attempt) :
    List Exchange → Outcome (Backfill ⊕ Option Backfill) → Prop
  | shrinks {error : NodeError} (refused : attempt.result = .refused error)
      (tooMuch : error.isTooMuchData = true) (splittable : state.batch ≠ 0) :
      Leaves config state attempt [] (.value (.inl { state with isVerified := true }.shrink))
  | refused {error : NodeError} (refused : attempt.result = .refused error)
      (final : ¬ (error.isTooMuchData = true ∧ state.batch ≠ 0)) :
      Leaves config state attempt [] (.error (.node error))
  | advances {logs : List Log} {block : Block} (stored : attempt.result = .stored logs block) :
      Leaves config state attempt []
        (.value (.inl ({ state with isVerified := true }.advance config block attempt.final)))
  /-- The range is stored, and a figure of what follows is no word. -/
  | overflows {logs : List Log} {block : Block} {operation : Word.Operation}
      (stored : attempt.result = .stored logs block) :
      Leaves config state attempt [] (.halted (.overflow operation))
  | quits {rest : List Exchange} {outcome : Outcome (Backfill ⊕ Option Backfill)}
      (unanswered : attempt.result = .canceled ∨ ∃ logs, attempt.result = .dropped logs)
      (unranged : Unranged rest) (noValue : outcome.value? = none) :
      Leaves config state attempt rest outcome

end Attempt

namespace Backfill

/-- How a turn ends that asks for no range, and what is heard in it. -/
inductive Stops (backlog : Nat) (state : Backfill) :
    List Exchange → Outcome (Backfill ⊕ Option Backfill) → Prop
  | near {check : List Exchange} {head : Nat} (isNear : state.isNear head backlog = true) :
      Stops backlog state (check ++ [.headAt head])
        (.value (.inr (some { state with isVerified := true })))
  | displaced {heard : List Exchange} : Stops backlog state heard (.value (.inr none))
  | quits {heard : List Exchange} {outcome : Outcome (Backfill ⊕ Option Backfill)}
      (noValue : outcome.value? = none) : Stops backlog state heard outcome

theorem Stops.near_of_value {backlog : Nat} {state reached : Backfill} {heard : List Exchange}
    (stops : state.Stops backlog heard (.value (.inr (some reached)))) :
    reached = { state with isVerified := true } ∧ ∃ check head, heard = check ++ [.headAt head] ∧
      (head < state.origin ∨ head - state.origin + 1 ≤ backlog) := by
  cases stops with
  | near isNear => exact ⟨rfl, _, _, rfl, of_decide_eq_true isNear⟩
  | quits noValue => cases noValue

open Session (Since)

/-- All that a turn can do. -/
inductive Turned {ε ω : Type} [EntryStore ε] [FaithfulStore ε] (config : Config)
    (transcript : ω → List Exchange) (state : Backfill) (session : Session ε) (world : ω)
    (outcome : Outcome (Backfill ⊕ Option Backfill)) (after : Session ε) (later : ω) : Prop
  | stops {heard : List Exchange} (since : Since transcript session world heard [] after later)
      (unranged : Unranged heard) (stops : state.Stops session.follower.backlog heard outcome)
  | attempts {attempt : Attempt} {rest : List Exchange}
      (since : Since transcript session world (attempt.exchanges config.filter ++ rest)
        attempt.event?.toList after later)
      (due : attempt.IsDue session.follower.backlog state)
      (leaves : attempt.Leaves config state rest outcome)

end Backfill

namespace Session

open Routine (Keeps Turn Turns)

variable {ε ω : Type} [EntryStore ε] [FaithfulStore ε] {transcript : ω → List Exchange}
  {session now : Session ε} {world late : ω} {config : Config} {state : Backfill}

/-! ## One turn -/

theorem asks_isSettled (state : Backfill) :
    Asks transcript (fun _ heard => Unranged heard) (isSettled state) session world := by
  rw [isSettled.eq_def]
  split
  · have other : ∀ height reply?, ¬ Exchange.IsRange ⟨.blockByTag (.number height), reply?⟩ :=
      fun _ _ => id
    apply (asks_call (other _)).andThen
    · intro found heard said
      rw [said]
      exact unranged_singleton (other _ _)
    · intro found after later heard said
      have unranged : Unranged (heard ++ []) := by
        rw [said]
        exact unranged_singleton (other _ _)
      cases found <;> exact asks_done unranged
  · exact asks_done unranged_nil

theorem keeps_backfillRange_turned {check : List Exchange} {head rangeEnd : Nat}
    (since : Since transcript session world (check ++ [.headAt head]) [] now late)
    (due : ∀ result, Attempt.IsDue session.follower.backlog state
      ⟨check, head, state.origin, rangeEnd, result⟩) :
    (backfillRange config { state with isVerified := true } rangeEnd >>= fun next =>
      pure (.inl next)).Keeps (Conduct.transcribed transcript) (fun _ _ => True)
        (state.Turned config transcript session world) now late := by
  have unranged : Unranged (check ++ [.headAt head]) :=
    (due .canceled).unranged.append (unranged_singleton id)
  rw [backfillRange, bind_assoc]
  apply (asks_reply _).sequence since
  case quits =>
    intro outcome after later more noValue unrangedThen since
    exact .stops since (unranged.append unrangedThen) (.quits noValue)
  case continues =>
    intro reply after later more said since
    rw [said] at since
    -- The logs are answered, and what is heard behind that is the label and the rest.
    have attempted : ∀ (result : Attempt.Result) {outcome} {after : Session ε} {later : ω}
        {rest : List Exchange}, result.reply? = reply →
        Since transcript session world (check ++ [.headAt head] ++
          [⟨.logs ⟨config.filter, .range state.origin rangeEnd⟩, reply⟩] ++
            (result.label rangeEnd ++ rest))
          (Attempt.event? ⟨check, head, state.origin, rangeEnd, result⟩).toList after later →
        Attempt.Leaves config state ⟨check, head, state.origin, rangeEnd, result⟩ rest outcome →
          state.Turned config transcript session world outcome after later := by
      intro result outcome after later rest same since leaves
      refine .attempts ?_ (due result) leaves
      rw [Attempt.exchanges, same]
      simpa using since
    rcases reply with _ | error | logs
    · apply attempted .canceled rfl (since.wait since_start)
      exact .quits (.inl rfl) unranged_nil rfl
    · dsimp only
      split
      case isTrue tooMuch =>
        apply attempted (.refused error) rfl (since.wait since_start)
        exact .shrinks rfl tooMuch.1 tooMuch.2
      case isFalse final =>
        apply attempted (.refused error) rfl (since.wait since_start)
        exact .refused rfl final
    · dsimp only
      rw [bind_assoc]
      apply (asks_blockAt rangeEnd).sequence since
      case quits =>
        intro outcome after later more noValue unranged since
        apply attempted (.dropped logs) rfl since
        exact .quits (.inr ⟨logs, rfl⟩) unranged noValue
      case continues =>
        intro block after later more said since
        rw [said] at since
        rw [bind_assoc]
        have unstored : ∀ {outcome : Outcome (Backfill ⊕ Option Backfill)} {final : Session ε}
            {last : ω}, outcome.value? = none → Since transcript after later [] [] final last →
              state.Turned config transcript session world outcome final last := by
          intro outcome final last noValue unchanged
          have ended := since.wait unchanged
          rw [List.append_assoc] at ended
          apply attempted (.dropped logs) rfl ended
          exact .quits (.inr ⟨logs, rfl⟩) (unranged_singleton id) noValue
        apply (keeps_apply_since _).bind
        · intro _ stored late sinceThen
          have ended := since.trans sinceThen
          rw [List.append_assoc] at ended
          refine .computes (Backfill.computes_checkAdvance _ _ _ _) ?_ fun operation _ => ?_
          · exact attempted (.stored logs block) rfl ended (.advances rfl)
          · exact attempted (.stored logs block) rfl ended (.overflows rfl)
        · exact fun cause after later unchanged => unstored rfl unchanged
        · exact fun cause after later unchanged => unstored rfl unchanged

theorem keeps_backfillStep_turned (config : Config) (state : Backfill) :
    (backfillStep config state).Keeps (Conduct.transcribed transcript) (fun _ _ => True)
      (state.Turned config transcript session world) session world := by
  have quits : ∀ outcome after later more, outcome.value? = none → Unranged more →
      Since transcript session world more [] after later →
        state.Turned config transcript session world outcome after later :=
    fun _ _ _ _ noValue unranged since => .stops since unranged (.quits noValue)
  apply asks_checkCanceled.sequence since_start
  case quits => exact quits
  case continues =>
    intro _ now late more none since
    rw [none] at since
    apply (asks_isSettled state).sequence since
    case quits => exact quits
    case continues =>
      intro isSettled now late check unranged since
      split
      case isFalse => exact .stops since unranged .displaced
      case isTrue =>
        apply Keeps.get_andThen
        rw [since.backlog]
        apply asks_height.sequence since
        case quits =>
          exact fun outcome after later more noValue unrangedThen =>
            quits outcome after later _ noValue (unranged.append unrangedThen)
        case continues =>
          intro head now late more said since
          rw [said.1] at since
          refine .computes (Backfill.computes_checkNear _ _ _) ?_ fun _ _ =>
            quits _ _ _ _ rfl (unranged.append (unranged_singleton id)) since
          split
          case isTrue isNear =>
            exact .stops since (unranged.append (unranged_singleton id)) (.near isNear)
          case isFalse far =>
            rcases Backfill.rangeEnd_settled far said.2 with ⟨ordered, settled⟩
            apply (asks_enter _).sequence since
            case quits =>
              intro outcome after later more noValue unrangedThen
              exact quits outcome after later _ noValue
                ((unranged.append (unranged_singleton id)).append unrangedThen)
            case continues =>
              intro _ now late more none since
              rw [none, List.append_nil] at since
              refine .computes (Backfill.computes_checkEnd _ _ _) ?_ fun _ _ =>
                quits _ _ _ _ rfl (unranged.append (unranged_singleton id)) since
              apply keeps_backfillRange_turned since
              exact fun result => ⟨unranged, rfl, rfl, ordered, settled⟩

end Session

/-! ## All turns -/

namespace Attempt

/-- The attempts that bring a backfill from one state to another. -/
inductive Scan (config : Config) (backlog : Nat) (begun : Backfill) :
    List Attempt → Backfill → Prop
  | idle : Scan config backlog begun [] begun
  | more {attempts : List Attempt} {attempt : Attempt} {state next : Backfill}
      (scan : Scan config backlog begun attempts state) (due : attempt.IsDue backlog state)
      (leaves : attempt.Leaves config state [] (.value (.inl next))) :
      Scan config backlog begun (attempts ++ [attempt]) next

/-- What holds of all attempts of a backfill. The stored ranges follow one another from the
origin on, without hole and without overlap. -/
structure Tiling (config : Config) (backlog origin : Nat) (attempts : List Attempt) : Prop where
  unranged : ∀ attempt ∈ attempts, Unranged attempt.check
  ordered : ∀ attempt ∈ attempts, attempt.first ≤ attempt.final
  narrow : ∀ attempt ∈ attempts, attempt.final - attempt.first ≤ config.batchSize
  settled : ∀ attempt ∈ attempts, attempt.final + backlog ≤ attempt.head
  starts : ∀ attempt ∈ (attempts.filter isStored).head?, attempt.first = origin
  adjoins : (attempts.filter isStored).IsChain fun earlier next => next.first = earlier.final + 1
  /-- A range goes as far as its batch, and as the backlog of the head allows. -/
  reaches : ∀ front next back, attempts = front ++ next :: back →
    next.final = min (min (next.first + batchAfter config front) (Backfill.heightLimit - 1))
      (next.head - backlog)
  /-- Behind refusals, an attempt starts where they did, and is not wider than what each of
  them has halved. -/
  halves : ∀ front refusals next back, attempts = front ++ refusals ++ next :: back →
    (∀ refusal ∈ refusals, refusal.IsTooMuch) →
      (∀ refusal ∈ refusals, next.first = refusal.first) ∧
        next.final - next.first ≤ batchAfter config front / 2 ^ refusals.length

variable {config : Config} {backlog : Nat} {begun state next : Backfill}
  {attempts front back refusals : List Attempt} {attempt : Attempt} {rest : List Exchange}

theorem Leaves.rest_eq_nil {result : Backfill ⊕ Option Backfill}
    (leaves : attempt.Leaves config state rest (.value result)) : rest = [] := by
  cases leaves with
  | shrinks _ _ _ => rfl
  | advances _ => rfl
  | quits _ _ noValue => cases noValue

/-- How an attempt may end a backfill, which then has no value: it has stored nothing, or a
figure behind its range was no word. -/
inductive EndsWith (attempt : Attempt) (rest : List Exchange) (outcome : Outcome (Option Backfill)) :
    Prop
  | unstored (unstored : attempt.event? = none) (unranged : Unranged rest)
      (noValue : outcome.value? = none)
      (refuses : ∀ error, attempt.result = .refused error → outcome = .error (.node error))
  | overflows {logs : List Log} {block : Block} (stored : attempt.result = .stored logs block)
      (nothing : rest = []) (noValue : outcome.value? = none)

theorem Leaves.of_returning {outcome : Outcome (Option Backfill)}
    (leaves : attempt.Leaves config state rest outcome.returning) :
    attempt.EndsWith rest outcome := by
  generalize same : outcome.returning = ended at leaves
  cases leaves with
  | overflows stored =>
      refine .overflows stored rfl ?_
      cases outcome with
      | value reached => cases same
      | error cause => cases same
      | halted cause => rfl
  | shrinks _ _ _ => cases outcome <;> cases same
  | advances _ => cases outcome <;> cases same
  | @refused error refused final =>
      cases outcome with
      | value reached => cases same
      | halted cause => cases same
      | error cause =>
          cases same
          refine .unstored (by rw [event?, refused]) unranged_nil rfl ?_
          intro other refusedThen
          rw [refused] at refusedThen
          cases refusedThen
          rfl
  | quits unanswered unranged noValue =>
      have noOutcome : outcome.value? = none := by
        cases outcome with
        | value reached =>
            cases same
            cases noValue
        | error cause => rfl
        | halted cause => rfl
      rcases unanswered with canceled | ⟨logs, dropped⟩
      · refine .unstored (by rw [event?, canceled]) unranged noOutcome fun error refused => ?_
        rw [canceled] at refused
        cases refused
      · refine .unstored (by rw [event?, dropped]) unranged noOutcome fun error refused => ?_
        rw [dropped] at refused
        cases refused

/-! ### Batches -/

theorem IsTooMuch.not_stored (tooMuch : attempt.IsTooMuch) : attempt.isStored = false := by
  rcases tooMuch with ⟨error, refused, -⟩
  rw [isStored, event?, refused]
  rfl

theorem batchAfter_concat (config : Config) (attempts : List Attempt) (attempt : Attempt) :
    batchAfter config (attempts ++ [attempt]) =
      if attempt.isStored then Backfill.grown config (batchAfter config attempts)
      else batchAfter config attempts / 2 := by
  rw [batchAfter, List.foldl_append]
  rfl

theorem batchAfter_le (config : Config) (attempts : List Attempt) :
    batchAfter config attempts ≤ config.batchSize := by
  induction attempts using List.reverseRecOn with
  | nil => exact Nat.le_refl _
  | append_singleton attempts attempt induction =>
      rw [batchAfter_concat]
      split
      · exact Backfill.grown_le config _
      · exact Nat.le_trans (Nat.div_le_self _ _) induction

theorem batchAfter_refusals (config : Config) (front : List Attempt)
    (tooMuch : ∀ refusal ∈ refusals, refusal.IsTooMuch) :
    batchAfter config (front ++ refusals) = batchAfter config front / 2 ^ refusals.length := by
  induction refusals using List.reverseRecOn with
  | nil => simp
  | append_singleton refusals refusal induction =>
      have earlier : ∀ other ∈ refusals, other.IsTooMuch :=
        fun other member => tooMuch other (List.mem_append_left _ member)
      have unstored := (tooMuch refusal (by simp)).not_stored
      rw [← List.append_assoc, batchAfter_concat, induction earlier, List.length_append,
        Nat.div_div_eq_div_mul]
      simp [unstored, Nat.pow_succ]

/-! ### States -/

theorem scan_concat (scan : Scan config backlog begun (attempts ++ [attempt]) next) :
    ∃ state, Scan config backlog begun attempts state ∧ attempt.IsDue backlog state ∧
      attempt.Leaves config state [] (.value (.inl next)) := by
  generalize same : attempts ++ [attempt] = all at scan
  cases scan with
  | idle => simp at same
  | more scan due leaves =>
      rcases List.append_inj' same rfl with ⟨rfl, last⟩
      cases last
      exact ⟨_, scan, due, leaves⟩

/-- Each attempt is made in the state that the attempts in front of it lead to. -/
theorem scan_append (scan : Scan config backlog begun (front ++ attempt :: back) next) :
    ∃ state following, Scan config backlog begun front state ∧ attempt.IsDue backlog state ∧
      attempt.Leaves config state [] (.value (.inl following)) := by
  induction back using List.reverseRecOn generalizing next with
  | nil =>
      rcases scan_concat scan with ⟨state, scan, due, leaves⟩
      exact ⟨state, next, scan, due, leaves⟩
  | append_singleton back last induction =>
      rw [← List.cons_append, ← List.append_assoc] at scan
      rcases scan_concat scan with ⟨state, scan, -, -⟩
      exact induction scan

theorem Scan.batch_eq (scan : Scan config backlog begun attempts state)
    (isBatch : begun.batch = config.batchSize) : state.batch = batchAfter config attempts := by
  induction scan with
  | idle => exact isBatch
  | more scan due leaves induction =>
      rw [batchAfter_concat, ← induction]
      cases leaves with
      | shrinks refused _ _ => simp [isStored, event?, refused, Backfill.shrink]
      | advances stored => simp [isStored, event?, stored, Backfill.advance]
      | quits _ _ noValue => cases noValue

theorem Scan.origin_eq (scan : Scan config backlog begun (front ++ refusals) state)
    (tooMuch : ∀ refusal ∈ refusals, refusal.IsTooMuch) :
    ∀ refusal ∈ refusals, state.origin = refusal.first := by
  induction refusals using List.reverseRecOn generalizing state with
  | nil => exact fun _ member => (List.not_mem_nil member).elim
  | append_singleton refusals last induction =>
      rw [← List.append_assoc] at scan
      rcases scan_concat scan with ⟨before, scan, due, leaves⟩
      have earlier : ∀ other ∈ refusals, other.IsTooMuch :=
        fun other member => tooMuch other (List.mem_append_left _ member)
      have stays : state.origin = before.origin := by
        cases leaves with
        | shrinks _ _ _ => rfl
        | advances stored =>
            rcases tooMuch last (by simp) with ⟨error, refused, -⟩
            rw [stored] at refused
            cases refused
        | quits _ _ noValue => cases noValue
      intro refusal member
      rw [stays]
      rcases List.mem_append.mp member with member | member
      · exact induction scan earlier refusal member
      · rw [List.mem_singleton.mp member]
        exact due.first.symm

/-- The stored attempts follow one another up to where the backfill stands, and the last of
them gave it its block. -/
theorem Scan.adjoins (scan : Scan config backlog begun attempts state) :
    (∀ attempt ∈ (attempts.filter isStored).head?, attempt.first = begun.origin) ∧
    ((attempts.filter isStored).IsChain fun earlier next => next.first = earlier.final + 1) ∧
    state.origin = (attempts.filter isStored).getLast?.elim begun.origin (·.final + 1) ∧
    state.last = ((attempts.filterMap event?).getLast?.map (·.block)).or begun.last := by
  induction scan with
  | idle => exact ⟨nofun, .nil, rfl, rfl⟩
  | @more attempts attempt state next scan due leaves induction =>
      rcases induction with ⟨starts, chain, origin, last⟩
      cases leaves with
      | shrinks refused _ _ =>
          have unstored : attempt.event? = none := by
            rw [event?, refused]
          have kept : (attempts ++ [attempt]).filter isStored = attempts.filter isStored := by
            simp [List.filter_append, isStored, unstored]
          have events : (attempts ++ [attempt]).filterMap event? = attempts.filterMap event? := by
            simp [List.filterMap_append, unstored]
          rw [kept, events]
          exact ⟨starts, chain, origin, last⟩
      | @advances logs block stored =>
          have isEvent : attempt.event? = some (.append logs block) := by
            rw [event?, stored]
          have kept : (attempts ++ [attempt]).filter isStored =
              attempts.filter isStored ++ [attempt] := by
            simp [List.filter_append, isStored, isEvent]
          have events : (attempts ++ [attempt]).filterMap event? =
              attempts.filterMap event? ++ [.append logs block] := by
            simp [List.filterMap_append, isEvent]
          rw [kept, events, List.getLast?_concat, List.getLast?_concat]
          refine ⟨?_, ?_, rfl, rfl⟩
          · intro first isFirst
            rw [List.head?_append] at isFirst
            cases isHead : (attempts.filter isStored).head? with
            | some head =>
                rw [isHead] at isFirst
                exact starts first (isHead.trans isFirst)
            | none =>
                rw [isHead] at isFirst
                cases isFirst
                rw [List.head?_eq_none_iff.mp isHead] at origin
                exact due.first.trans origin
          · apply List.isChain_append.mpr
            refine ⟨chain, .singleton attempt, ?_⟩
            intro earlier isLast next isNext
            cases isNext
            rw [isLast] at origin
            exact due.first.trans origin
      | quits _ _ noValue => cases noValue

/-- A backfill has stored what led it to a state, and then made at most one more attempt. -/
structure Covers (config : Config) (backlog : Nat) (begun : Backfill) (attempts : List Attempt)
    (state : Backfill) (last? : Option Attempt) : Prop where
  scan : Scan config backlog begun attempts state
  due : ∀ last ∈ last?, last.IsDue backlog state
  unstored : ∀ last ∈ last?, last.event? = none

variable {last? : Option Attempt}

theorem Covers.due_of_split (covers : Covers config backlog begun attempts state last?)
    (split : attempts ++ last?.toList = front ++ attempt :: back) :
    ∃ state, Scan config backlog begun front state ∧ attempt.IsDue backlog state := by
  have within : ∀ behind, attempts = front ++ attempt :: behind →
      ∃ state, Scan config backlog begun front state ∧ attempt.IsDue backlog state := by
    intro behind same
    rcases scan_append (same ▸ covers.scan) with ⟨state, _, scan, due, -⟩
    exact ⟨state, scan, due⟩
  cases last? with
  | none => exact within back ((List.append_nil attempts).symm.trans split)
  | some last =>
      rcases List.eq_nil_or_concat back with rfl | ⟨behind, other, rfl⟩
      · rcases List.append_inj' split rfl with ⟨rfl, same⟩
        cases same
        exact ⟨state, covers.scan, covers.due _ rfl⟩
      · rw [List.concat_eq_append, ← List.cons_append, ← List.append_assoc] at split
        exact within behind (List.append_inj' split rfl).1

theorem Covers.filter_eq (covers : Covers config backlog begun attempts state last?) :
    (attempts ++ last?.toList).filter isStored = attempts.filter isStored := by
  cases last? with
  | none => simp
  | some last => simp [isStored, covers.unstored last rfl]

theorem Covers.tiling (covers : Covers config backlog begun attempts state last?)
    (isBatch : begun.batch = config.batchSize) :
    Tiling config backlog begun.origin (attempts ++ last?.toList) := by
  have made : ∀ attempt ∈ attempts ++ last?.toList,
      ∃ state, state.batch ≤ config.batchSize ∧ attempt.IsDue backlog state := by
    intro attempt member
    rcases List.append_of_mem member with ⟨front, back, split⟩
    rcases covers.due_of_split split with ⟨state, scan, due⟩
    refine ⟨state, ?_, due⟩
    rw [scan.batch_eq isBatch]
    exact batchAfter_le config front
  have stored := covers.scan.adjoins
  rw [← covers.filter_eq] at stored
  refine ⟨?_, ?_, ?_, ?_, stored.1, stored.2.1, ?_, ?_⟩
  · intro attempt member
    rcases made attempt member with ⟨state, -, due⟩
    exact due.unranged
  · intro attempt member
    rcases made attempt member with ⟨state, -, due⟩
    exact due.ordered
  · intro attempt member
    rcases made attempt member with ⟨state, small, due⟩
    have within := due.within
    omega
  · intro attempt member
    rcases made attempt member with ⟨state, -, due⟩
    exact due.settled
  · intro front next back split
    rcases covers.due_of_split split with ⟨state, scan, due⟩
    rw [due.final, due.first, ← scan.batch_eq isBatch, Backfill.rangeEnd]
  · intro front refusals next back split tooMuch
    rcases covers.due_of_split split with ⟨state, scan, due⟩
    constructor
    · intro refusal member
      exact due.first.trans (scan.origin_eq tooMuch refusal member)
    · rw [← batchAfter_refusals config front tooMuch, ← scan.batch_eq isBatch]
      have within := due.within
      omega

/-- A refusal that nothing was left to halve for is the last attempt. -/
theorem Covers.last_of_batch_zero (covers : Covers config backlog begun attempts state last?)
    (isBatch : begun.batch = config.batchSize) (tooMuch : attempt.IsTooMuch)
    (zero : batchAfter config front = 0)
    (split : attempts ++ last?.toList = front ++ attempt :: back) :
    front = attempts ∧ last? = some attempt ∧ back = [] := by
  have within : ∀ behind, attempts ≠ front ++ attempt :: behind := by
    intro behind same
    rcases scan_append (same ▸ covers.scan) with ⟨state, next, scan, -, leaves⟩
    cases leaves with
    | shrinks _ _ splittable => exact splittable ((scan.batch_eq isBatch).trans zero)
    | advances stored =>
        rcases tooMuch with ⟨error, refused, -⟩
        rw [stored] at refused
        cases refused
    | quits _ _ noValue => cases noValue
  cases last? with
  | none => exact absurd ((List.append_nil attempts).symm.trans split) (within back)
  | some last =>
      rcases List.eq_nil_or_concat back with rfl | ⟨behind, other, rfl⟩
      · rcases List.append_inj' split rfl with ⟨rfl, same⟩
        cases same
        exact ⟨rfl, rfl, rfl⟩
      · rw [List.concat_eq_append, ← List.cons_append, ← List.append_assoc] at split
        exact absurd (List.append_inj' split rfl).1 (within behind)

/-- So the backfill ends with the error of such a refusal. -/
theorem Covers.refuses (covers : Covers config backlog begun attempts state last?)
    (isBatch : begun.batch = config.batchSize) {outcome : Outcome (Option Backfill)}
    (last : ∀ last ∈ last?, ∀ error, last.result = .refused error → outcome = .error (.node error))
    {error : NodeError} (refused : attempt.result = .refused error)
    (tooMuch : error.isTooMuchData = true) (zero : batchAfter config front = 0)
    (split : attempts ++ last?.toList = front ++ attempt :: back) :
    back = [] ∧ outcome = .error (.node error) := by
  rcases covers.last_of_batch_zero isBatch ⟨error, refused, tooMuch⟩ zero split with
    ⟨-, isLast, nothing⟩
  exact ⟨nothing, last attempt isLast error refused⟩

end Attempt

namespace Session

open Attempt (Covers Scan Tiling)
open Routine (Turn Turns)

variable {ε ω : Type} [EntryStore ε] [FaithfulStore ε] {transcript : ω → List Exchange}
  {session after : Session ε} {world later : ω} {config : Config}
  {outcome : Outcome (Option Backfill)}

theorem Since.attempt {now : Session ε} {late : ω} {attempts : List Attempt} {attempt : Attempt}
    {rest : List Exchange}
    (since : Since transcript session world (attempts.flatMap (Attempt.exchanges config.filter))
      (attempts.filterMap Attempt.event?) now late)
    (sinceThen : Since transcript now late (attempt.exchanges config.filter ++ rest)
      attempt.event?.toList after later) :
    Since transcript session world
      ((attempts ++ [attempt]).flatMap (Attempt.exchanges config.filter) ++ rest)
      ((attempts ++ [attempt]).filterMap Attempt.event?) after later := by
  have events : (attempts ++ [attempt]).filterMap Attempt.event? =
      attempts.filterMap Attempt.event? ++ attempt.event?.toList := by
    rw [List.filterMap_append]
    cases isEvent : attempt.event? <;> simp [isEvent]
  rw [events, List.flatMap_append, List.flatMap_singleton, List.append_assoc]
  exact since.trans sinceThen

/-- Wherever a backfill stands, its attempts have led it there. -/
theorem scan_of_turns {begun : Backfill} {count : Nat} {now : Standing (Session ε) ω Backfill}
    (taken : Turns (Conduct.transcribed transcript) (backfillStep config) ⟨begun, session, world⟩
      count now) :
    ∃ attempts, Scan config session.follower.backlog begun attempts now.place ∧
      Since transcript session world (attempts.flatMap (Attempt.exchanges config.filter))
        (attempts.filterMap Attempt.event?) now.state now.world := by
  apply taken.preserves fun now =>
    ∃ attempts, Scan config session.follower.backlog begun attempts now.place ∧
      Since transcript session world (attempts.flatMap (Attempt.exchanges config.filter))
        (attempts.filterMap Attempt.event?) now.state now.world
  · intro now next turn stands
    rcases stands with ⟨attempts, scan, since⟩
    cases (keeps_backfillStep_turned config now.place).ends turn with
    | stops _ _ stops =>
        cases stops with
        | quits noValue => cases noValue
    | @attempts attempt rest sinceThen due leaves =>
        rw [since.backlog] at due
        have sinceStart := since.attempt sinceThen
        have nothing := leaves.rest_eq_nil
        subst nothing
        rw [List.append_nil] at sinceStart
        exact ⟨attempts ++ [attempt], scan.more due leaves, sinceStart⟩
  · exact ⟨[], .idle, since_start⟩

/-- A backfill ends where its attempts have led it, or with one more attempt that stores nothing. -/
theorem covers_of_ends {turns : Nat} {begun : Backfill}
    (ended : (Routine.iterate (backfillStep config) turns begun).Ends
      (Conduct.transcribed transcript) session world outcome after later) :
    ∃ attempts state last? rest,
      Covers config session.follower.backlog begun attempts state last? ∧
      Since transcript session world
        ((attempts ++ last?.toList).flatMap (Attempt.exchanges config.filter) ++ rest)
        ((attempts ++ last?.toList).filterMap Attempt.event?) after later ∧
      Unranged rest ∧
      (∀ last ∈ last?, ∀ error, last.result = .refused error → outcome = .error (.node error)) ∧
      ∀ reached, outcome = .value (some reached) → last? = none ∧
        state.Stops session.follower.backlog rest (.value (.inr (some reached))) := by
  have starts : Turns (Conduct.transcribed transcript) (backfillStep config)
      ⟨begun, session, world⟩ 0 ⟨begun, session, world⟩ := .none
  rcases Routine.ends_iterate starts ended with ⟨total, last, taken, ending⟩
  rcases scan_of_turns taken with ⟨attempts, scan, since⟩
  have quiet : Covers config session.follower.backlog begun attempts last.place none :=
    ⟨scan, nofun, nofun⟩
  rw [← List.append_nil attempts] at since
  rcases ending with halts | ⟨-, rfl, rfl, rfl⟩
  · cases (keeps_backfillStep_turned config last.place).ends halts with
    | @stops heard sinceThen unranged stops =>
        rw [since.backlog] at stops
        refine ⟨attempts, last.place, none, heard, quiet, since.wait sinceThen, unranged, nofun, ?_⟩
        intro reached isValue
        subst isValue
        exact ⟨rfl, stops⟩
    | @attempts attempt rest sinceThen due leaves =>
        rw [since.backlog] at due
        rw [List.append_nil] at since
        have noReached : outcome.value? = none → ∀ reached, outcome ≠ .value (some reached) := by
          rintro noValue reached rfl
          cases noValue
        cases leaves.of_returning with
        | unstored unstored unranged noValue refuses =>
            have covers : Covers config session.follower.backlog begun attempts last.place
                (some attempt) := by
              refine ⟨scan, ?_, ?_⟩
              · intro _ isLast
                cases isLast
                exact due
              · intro _ isLast
                cases isLast
                exact unstored
            refine ⟨attempts, last.place, some attempt, rest, covers, since.attempt sinceThen,
              unranged, ?_, fun reached isValue => absurd isValue (noReached noValue reached)⟩
            intro _ isLast
            cases isLast
            exact refuses
        | overflows stored nothing noValue =>
            have covers := scan.more due (.advances stored)
            have sinceStart := since.attempt sinceThen
            rw [← List.append_nil (attempts ++ [attempt])] at sinceStart
            subst nothing
            exact ⟨attempts ++ [attempt], _, none, [], ⟨covers, nofun, nofun⟩, sinceStart,
              unranged_nil, nofun, fun reached isValue => absurd isValue (noReached noValue reached)⟩
  · exact ⟨attempts, last.place, none, [], quiet, since.wait since_start, unranged_nil, nofun,
      nofun⟩

/-- A backfill is told by the ranges that it asks for. All that is stored are answers to
them, each with the block that the node gave for its last height. If the backfill returns
where it stands, it is behind the last range that was stored, and near the head that it
heard of last. A node that refuses even single heights ends it with that error. -/
theorem backfill_tiles {turns origin : Nat} {last? : Option Block}
    (ended : (backfill config turns origin last?).Ends (Conduct.transcribed transcript) session
      world outcome after later) :
    ∃ attempts rest,
      Since transcript session world
        (attempts.flatMap (Attempt.exchanges config.filter) ++ rest)
        (attempts.filterMap Attempt.event?) after later ∧
      Unranged rest ∧
      Tiling config session.follower.backlog origin attempts ∧
      (∀ reached, outcome = .value (some reached) →
        reached.origin = (attempts.filter Attempt.isStored).getLast?.elim origin (·.final + 1) ∧
        reached.last = ((attempts.filterMap Attempt.event?).getLast?.map (·.block)).or last? ∧
        ∃ check head, rest = check ++ [.headAt head] ∧
          (head < reached.origin ∨ head - reached.origin + 1 ≤ session.follower.backlog)) ∧
      ∀ front refusal back error, attempts = front ++ refusal :: back →
        refusal.result = .refused error → error.isTooMuchData = true →
          Attempt.batchAfter config front = 0 → back = [] ∧ outcome = .error (.node error) := by
  rcases covers_of_ends ended with
    ⟨attempts, state, attempt?, rest, covers, since, unranged, refuses, stops⟩
  refine ⟨attempts ++ attempt?.toList, rest, since, unranged, covers.tiling rfl, ?_, ?_⟩
  · intro reached isValue
    rcases stops reached isValue with ⟨rfl, here⟩
    rcases here.near_of_value with ⟨rfl, near⟩
    rcases covers.scan.adjoins with ⟨-, -, isOrigin, isLast⟩
    rw [Option.toList_none, List.append_nil]
    exact ⟨isOrigin, isLast, near⟩
  · intro front refusal back error split refused tooMuch zero
    exact covers.refuses rfl refuses refused tooMuch zero split

end Session

/-! ## Ranges of two heights, refused -/

/-- The same surroundings, in a world where all is written down. -/
def Surroundings.transcribing (surroundings : Surroundings σ ω) :
    Surroundings σ (ω × List Exchange) where
  answer query state world :=
    let (answer, after, later) := surroundings.answer query state world.1
    (answer, after, later, world.2 ++ query.exchanges answer)

theorem Surroundings.transcribing_follows {ε ω : Type} [EntryStore ε] [FaithfulStore ε]
    {reply : Session ε → ω → (call : Node.Call) → call.Reply} {next : ω → Query → ω}
    (below : ∀ session world head, reply session world .height = .ok head →
      head ≤ Word.size 64 - 1) :
    (Surroundings.calm reply next).transcribing.Follows (Conduct.transcribed Prod.snd) := by
  intro query session world answer after later answered
  cases answered
  exact ⟨⟨rfl, rfl, rfl, rfl⟩,
    Surroundings.calm_follows_headsUpTo below query session world.1 _ _ _ rfl⟩

namespace Fork

theorem refusing_follows :
    refusing.transcribing.Follows (Conduct.transcribed (ε := Entry) Prod.snd) := by
  apply Surroundings.transcribing_follows
  intro _ _ head isHead
  cases isHead
  decide

/-- Where a backfill of single heights ends. -/
def refusedEnd : Backfill :=
  { origin := 3, last := some (left 2), batch := 2 }

end Fork

namespace Session

theorem backfill_tiles_at_fork :
    let config : Config := { maxBlockBacklog := 1, batchSize := 2 }
    let ended := (backfill config 20 0 none).run Fork.refusing.transcribing Fork.session ((), [])
    ended.1.value? = some (some Fork.refusedEnd) ∧
      ∃ (attempts : List Attempt) (rest : List Exchange),
        ended.2.2.2 = attempts.flatMap (Attempt.exchanges {}) ++ rest ∧
        Attempt.Tiling config 1 0 attempts ∧
        (attempts.filter Attempt.isStored).getLast?.elim 0 (·.final + 1) = 3 := by
  intro config ended
  have isValue : ended.1.value? = some (some Fork.refusedEnd) := by decide +kernel
  rcases backfill_tiles (Routine.ends_of_run Fork.refusing_follows isValue) with
    ⟨attempts, rest, since, -, tiling, reaches, -⟩
  exact ⟨isValue, attempts, rest, since.heard, tiling, (reaches Fork.refusedEnd rfl).1.symm⟩

end Session

end ReorgSync
