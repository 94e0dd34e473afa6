import Mathlib.Data.Nat.Size
import ReorgSync.Proofs.Routine.Loops
import ReorgSync.Proofs.Sync.Jobs

namespace ReorgSync

/-! A backfill shrinks its batch when the node refuses a range, and grows it again when a
range was stored. So the batch goes both ways, and the first height often stays. What each
turn brings down are the heights that are left, and behind them the halvings. -/

/-- The height of the head, if that is what was answered. -/
def Node.Call.height? : (call : Node.Call) → call.Reply → Option Nat
  | .height, .ok head => some head
  | _, _ => none

def Query.height? : (query : Query) → query.Answer → Option Nat
  | .node call, reply => call.height? reply
  | .cancelableNode call, some reply => call.height? reply
  | _, _ => none

/-- Any answer is acceptable, but for heads above a limit, and anything may happen to the
state meanwhile. -/
def Conduct.headsUpTo (limit : Nat) : Conduct σ ω :=
  fun query _ _ answer _ _ => ∀ height ∈ query.height? answer, height ≤ limit

namespace Backfill

variable {config : Config} {limit : Nat} {state next : Backfill}

/-- What a turn leaves a backfill with if it goes on, while no head is above a limit. -/
inductive Goes (config : Config) (limit : Nat) (state : Backfill) : Backfill → Prop
  | shrinks (splittable : state.batch ≠ 0) :
      Goes config limit state { state with isVerified := true }.shrink
  | advances (block : Block) (rangeEnd : Nat) (ordered : state.origin ≤ rangeEnd)
      (below : rangeEnd ≤ limit)
      (fits : limit + 1 < Word.size 64 → state.batch + growth config < Word.size 64) :
      Goes config limit state ({ state with isVerified := true }.advance config block rangeEnd)

/-- The first height is raised, but not far above the limit; or it stays, and the batch is
lowered. -/
theorem Goes.progresses (goes : Goes config limit state next) :
    (state.origin < next.origin ∧ next.origin ≤ limit + 1) ∨
      (next.origin = state.origin ∧ next.batch < state.batch) := by
  cases goes with
  | shrinks splittable =>
      exact .inr ⟨rfl, Nat.div_lt_self (Nat.pos_of_ne_zero splittable) (Nat.lt_succ_self 1)⟩
  | advances block rangeEnd ordered below fits =>
      exact .inl ⟨Nat.lt_succ_of_le ordered, Nat.succ_le_succ below⟩

/-- How one turn of a backfill may end, and with which entry, while no head is above a limit. -/
inductive TurnEnds [EntryStore ε] (config : Config) (limit : Nat) (state : Backfill) :
    Outcome (Backfill ⊕ Option Backfill) → ε → Prop
  | goesOn {next : Backfill} {entry : ε} (goes : Goes config limit state next) :
      TurnEnds config limit state (.value (.inl next)) entry
  | returns {reached : Option Backfill} {entry : ε} :
      TurnEnds config limit state (.value (.inr reached)) entry
  | fails {error : SyncError} {entry : ε} : TurnEnds config limit state (.error error) entry
  /-- A range is stored, and no batch behind it is a word. -/
  | outgrows {before entry : ε} {logs : List Log} {block : Block}
      (stored : EntryStore.apply before (.append logs block) = .ok entry)
      (tooLarge : Word.size 64 ≤ state.batch + growth config) :
      TurnEnds config limit state (.halted (.overflow .addition)) entry
  /-- Among heads up to the largest word, there may be no height behind one. -/
  | outreaches {operation : Word.Operation} {entry : ε} (tooHigh : Word.size 64 ≤ limit + 1) :
      TurnEnds config limit state (.halted (.overflow operation)) entry

/-! ## How many turns there are -/

/-- How many turns are left at most: each height below the limit is stored once, and the
batch is halved down to nothing in front of each. -/
def turnsLeft (config : Config) (limit : Nat) (state : Backfill) : Nat :=
  (limit + 1 - state.origin) * (config.batchSize.size + 1) + state.batch.size

theorem size_half_lt {count : Nat} (positive : count ≠ 0) : (count / 2).size < count.size := by
  rcases Nat.exists_eq_succ_of_ne_zero (Nat.size_pos.mpr (Nat.pos_of_ne_zero positive)).ne' with
    ⟨digits, isSize⟩
  have below : count < 2 ^ (digits + 1) := Nat.size_le.mp (Nat.le_of_eq isSize)
  rw [Nat.pow_succ] at below
  rw [isSize]
  exact Nat.lt_succ_of_le (Nat.size_le.mpr (by omega))

theorem Goes.turnsLeft_lt (goes : Goes config limit state next) :
    next.turnsLeft config limit < state.turnsLeft config limit := by
  cases goes with
  | shrinks splittable => exact Nat.add_lt_add_left (size_half_lt splittable) _
  | advances block rangeEnd ordered below fits =>
      have halvings : (grown config state.batch).size ≤ config.batchSize.size :=
        Nat.size_le_size (grown_le config state.batch)
      have heights : (limit + 1 - (rangeEnd + 1)) + 1 ≤ limit + 1 - state.origin := by omega
      have stored := Nat.mul_le_mul_right (config.batchSize.size + 1) heights
      rw [Nat.succ_mul] at stored
      simp only [turnsLeft, advance]
      omega

end Backfill

namespace Session

open Routine (Finishes Keeps Turn Turns)

variable {ε ω : Type} [EntryStore ε] {config : Config} {limit : Nat} {session : Session ε}
  {world : ω} {state : Backfill}

omit [EntryStore ε] in
theorem keeps_height : (Session.call .height).Keeps (Conduct.headsUpTo limit) (fun _ _ => True)
    (Outcome.Meets (fun head _ _ => head ≤ limit) fun _ _ => True) session world := by
  apply Keeps.after_any
  intro _ _ _
  rw [Routine.node, Routine.cancelable]
  intro reply after later accepted
  rcases reply with _ | error | head
  · trivial
  · trivial
  · exact accepted head rfl

omit [EntryStore ε] in
theorem finishes_call (call : Node.Call) :
    (Session.call call : Routine (Session ε) call.Value).Finishes :=
  .guarded_node call

omit [EntryStore ε] in
theorem finishes_blockAt (height : Nat) : (blockAt height : Routine (Session ε) Block).Finishes := by
  apply (finishes_call _).andThen
  intro found
  cases found <;> trivial

omit [EntryStore ε] in
theorem finishes_isSettled (state : Backfill) :
    (isSettled state : Routine (Session ε) Bool).Finishes := by
  rw [isSettled.eq_def]
  split
  · apply (finishes_call _).andThen
    intro found
    cases found <;> trivial
  · trivial

/-- What one turn of a backfill can do. -/
theorem keeps_backfillStep (bounded : limit < Word.size 64) :
    (backfillStep config state).Keeps (Conduct.headsUpTo limit) (fun _ _ => True)
      (fun outcome after _ => state.TurnEnds config limit outcome after.entry) session world := by
  have fails : ∀ error (after : Session ε) (_ : ω),
      state.TurnEnds config limit (.error error) after.entry := fun _ _ _ => .fails
  refine Finishes.checkCanceled.andKeeps (fun _ after later _ => ?_) fails
  refine (finishes_isSettled state).andKeeps (fun isSettled after later _ => ?_) fails
  split
  case isFalse => exact .returns
  case isTrue =>
    apply Keeps.get_andThen
    refine (finishes_call .height).andKeeps (fun head after later answered => ?_) fails
    have isBelow : head ≤ limit := keeps_height.ends answered
    refine .computes (Backfill.computes_checkNear _ _ _) ?_ fun _ isHalted =>
      .outreaches (Nat.le_trans (Backfill.size_le_of_checkNear isHalted) (Nat.succ_le_succ isBelow))
    split
    case isTrue => exact .returns
    case isFalse far =>
      have range := Backfill.rangeEnd_settled far (Nat.lt_of_le_of_lt isBelow bounded)
      refine Finishes.andKeeps (fun _ => trivial) (fun _ after later _ => ?_) fails
      rw [Backfill.checkEnd_eq far]
      change (backfillRange _ _ _ >>= _ : Routine (Session ε) _).Keeps _ _ _ after later
      rw [backfillRange, bind_assoc]
      refine (Finishes.guarded_ask _).andKeeps (fun reply after later _ => ?_) fails
      rcases reply with _ | error | logs
      · exact .fails
      · dsimp only
        split
        case isTrue refused => exact .goesOn (.shrinks refused.2)
        case isFalse => exact .fails
      · dsimp only
        rw [bind_assoc]
        refine (finishes_blockAt _).andKeeps (fun block after later _ => ?_) fails
        rw [bind_assoc]
        refine keeps_stored (fun after stored => ?_) fun _ => .fails
        have below : { state with isVerified := true : Backfill }.rangeEnd head _ ≤ limit :=
          Nat.le_trans (Nat.le_of_add_right_le range.2) isBelow
        by_cases low : limit + 1 < Word.size 64
        · rw [Backfill.checkAdvance_eq (by omega)]
          split
          case isTrue fits => exact .goesOn (.advances block _ range.1 below fun _ => fits)
          case isFalse tooLarge => exact .outgrows stored (Nat.le_of_not_lt tooLarge)
        · refine .computes (Backfill.computes_checkAdvance _ _ _ _) ?_ fun _ _ =>
            .outreaches (Nat.le_of_not_lt low)
          exact .goesOn (.advances block _ range.1 below fun isLow => absurd isLow low)

/-- As long as no head is above a limit, a backfill takes no more than so many turns,
whatever else is answered: each turn that goes on raises the first height, which does not
come to lie more than one above the limit, or keeps it and lowers the batch. So a backfill
that may take more turns than that returns or fails by itself. -/
theorem backfill_terminates {turns origin : Nat} {last? : Option Block}
    (bounded : limit < Word.size 64) :
    let begun : Backfill := { origin, last := last?, batch := config.batchSize }
    (∀ count now, Turns (Conduct.headsUpTo limit) (backfillStep config) ⟨begun, session, world⟩
        count now →
      count ≤ begun.turnsLeft config limit ∧
      (origin ≤ limit + 1 → now.place.origin ≤ limit + 1) ∧
      ∀ next, Turn (Conduct.headsUpTo limit) (backfillStep config) now next →
        now.place.origin < next.place.origin ∨
          (next.place.origin = now.place.origin ∧ next.place.batch < now.place.batch)) ∧
    (begun.turnsLeft config limit < turns → ∀ after later,
      ¬ (backfill config turns origin last?).Ends (Conduct.headsUpTo limit) session world
        (.halted .exhausted) after later) := by
  intro begun
  have goes : ∀ now next : Standing (Session ε) ω Backfill,
      Turn (Conduct.headsUpTo limit) (backfillStep config) now next →
        now.place.Goes config limit next.place := by
    intro now next turn
    cases (keeps_backfillStep bounded).ends turn with
    | goesOn goes => exact goes
  have counted : ∀ count now,
      Turns (Conduct.headsUpTo limit) (backfillStep config) ⟨begun, session, world⟩ count now →
        count ≤ begun.turnsLeft config limit := by
    intro count now turns
    have left := turns.count_le (fun _ => True) (Backfill.turnsLeft config limit)
      (fun now next turn _ => ⟨trivial, (goes now next turn).turnsLeft_lt⟩) trivial
    exact Nat.le_trans (Nat.le_add_right _ _) left
  refine ⟨fun count now turns => ⟨counted count now turns, ?_, ?_⟩, ?_⟩
  · apply turns.preserves fun now => now.place.origin ≤ limit + 1
    intro now next turn below
    rcases (goes now next turn).progresses with raised | kept
    · exact raised.2
    · rw [kept.1]
      exact below
  · intro next turn
    exact (goes now next turn).progresses.imp And.left id
  · intro enough after later ended
    rcases Routine.halts_of_turns counted enough ended with ⟨count, now, -, halts⟩
    cases (keeps_backfillStep bounded).ends halts

end Session

/-! ## A node that refuses every range of two heights -/

theorem Surroundings.calm_follows_headsUpTo {limit : Nat}
    {reply : σ → ω → (call : Node.Call) → call.Reply} {next : ω → Query → ω}
    (below : ∀ state world head, reply state world .height = .ok head → head ≤ limit) :
    (Surroundings.calm reply next).Follows (Conduct.headsUpTo limit) := by
  have replied : ∀ state world (call : Node.Call), ∀ height ∈ call.height? (reply state world call),
      height ≤ limit := by
    intro state world call height member
    cases call with
    | height =>
        cases isHead : reply state world .height with
        | error error =>
            rw [isHead] at member
            cases member
        | ok head =>
            rw [isHead] at member
            cases member
            exact below state world height isHead
    | _ => cases member
  intro query state world answer after later answered height member
  cases answered
  cases query with
  | node call => exact replied state _ call height member
  | cancelableNode call => exact replied state _ call height member
  | _ => cases member

namespace Fork

def refusing : Surroundings (Session Entry) Unit :=
  .calm (fun _ _ => tree.reply 1 (some 0) "" (left 3)) fun _ _ => ()

end Fork

namespace Session

/-- Each block is stored by a range of its own: two ranges are refused and lower the batch,
and the third is stored and raises the first height. -/
theorem backfill_terminates_at_fork :
    let config : Config := { maxBlockBacklog := 1, batchSize := 2 }
    let begun : Backfill := { origin := 0, last := none, batch := 2 }
    let stored : Backfill :=
      { origin := 1, last := some Fork.root, batch := 1, isVerified := false }
    let after (now : Standing (Session Entry) Unit Backfill) (next : Backfill) :
        Standing (Session Entry) Unit Backfill :=
      ⟨next, ((backfillStep config now.place).run Fork.refusing now.state ()).2.1, ()⟩
    let first : Standing (Session Entry) Unit Backfill := ⟨begun, Fork.session, ()⟩
    let second := after first begun.shrink
    let third := after second begun.shrink.shrink
    let fourth := after third stored
    let turn := Routine.Turn (Conduct.headsUpTo 3) (backfillStep config)
    3 < Word.size 64 ∧ begun.turnsLeft config 3 < 20 ∧
      ((backfill config 20 0 none).run Fork.refusing Fork.session ()).1 ≠ .halted .exhausted ∧
      turn first second ∧ turn second third ∧ turn third fourth ∧
      3 ≤ begun.turnsLeft config 3 ∧ fourth.place.origin ≤ 3 + 1 ∧
      (first.place.origin < second.place.origin ∨
        (second.place.origin = first.place.origin ∧ second.place.batch < first.place.batch)) ∧
      (third.place.origin < fourth.place.origin ∨
        (fourth.place.origin = third.place.origin ∧ fourth.place.batch < third.place.batch)) := by
  intro config begun stored after first second third fourth turn
  have follows : Fork.refusing.Follows (Conduct.headsUpTo 3) :=
    Surroundings.calm_follows_headsUpTo fun _ _ head isHead =>
      Nat.le_of_eq (Except.ok.inj isHead).symm
  have bounded : 3 < Word.size 64 := by decide
  have enough : begun.turnsLeft config 3 < 20 := by decide
  have lowered : turn first second := Routine.turn_of_run follows (by decide +kernel)
  have loweredAgain : turn second third := Routine.turn_of_run follows (by decide +kernel)
  have raised : turn third fourth := Routine.turn_of_run follows (by decide +kernel)
  have twice : Routine.Turns (Conduct.headsUpTo 3) (backfillStep config) first 2 third :=
    .more (.more .none lowered) loweredAgain
  have terminates := @backfill_terminates Entry Unit _ config 3 Fork.session () 20 0 none bounded
  rcases terminates.1 _ _ (twice.more raised) with ⟨few, below, -⟩
  refine ⟨bounded, enough, fun isExhausted => ?_, lowered, loweredAgain, raised, few,
    below (by decide), (terminates.1 _ _ .none).2.2 _ lowered,
    (terminates.1 _ _ twice).2.2 _ raised⟩
  have ended := Routine.ends_run follows (backfill config 20 0 none) Fork.session ()
  rw [isExhausted] at ended
  exact terminates.2 enough _ _ ended

end Session

end ReorgSync
