import ReorgSync.Proofs.Routine.Quietly
import ReorgSync.Sync.Backfill

namespace ReorgSync

/-! Where a backfill goes on is found by sums and differences of words, and it breaks off
where one of them leads out of the words. Here stands what it finds otherwise, in numbers of
any size. -/

namespace Backfill

/-- The last height of a range: behind its first one by the batch, but not
within the backlog of the head. -/
def rangeEnd (state : Backfill) (head backlog : Nat) : Nat :=
  min (min (state.origin + state.batch) (heightLimit - 1)) (head - backlog)

/-- Whether so few blocks are left that they are fetched one by one. -/
def isNear (state : Backfill) (head backlog : Nat) : Bool :=
  decide (head < state.origin ∨ head - state.origin + 1 ≤ backlog)

/-- A little more than a batch, up to the configured size. -/
def grown (config : Config) (batch : Nat) : Nat :=
  min (batch + growth config) config.batchSize

/-- Behind a range, with a batch that reaches a little farther. -/
def advance (state : Backfill) (config : Config) (block : Block) (rangeEnd : Nat) : Backfill where
  origin := rangeEnd + 1
  last := some block
  batch := grown config state.batch
  isVerified := false

/-- A batch of the configured size may grow once more and stay a word. -/
def Fits (config : Config) : Prop :=
  config.batchSize + growth config < Word.size 64

instance : Decidable (Fits config) :=
  inferInstanceAs (Decidable (_ < _))

variable {σ : Type} {config : Config} {state : Backfill} {block : Block}
  {head backlog rangeEnd : Nat}

theorem grown_le (config : Config) (batch : Nat) : grown config batch ≤ config.batchSize :=
  Nat.min_le_right _ _

theorem rangeEnd_le (state : Backfill) (head backlog : Nat) :
    state.rangeEnd head backlog ≤ state.origin + state.batch :=
  Nat.le_trans (Nat.min_le_left _ _) (Nat.min_le_left _ _)

/-- The ranges of a backfill end settled blocks. -/
theorem rangeEnd_settled (far : ¬ state.isNear head backlog) (bounded : head < Word.size 64) :
    state.origin ≤ state.rangeEnd head backlog ∧
      state.rangeEnd head backlog + backlog ≤ head := by
  rw [isNear, decide_eq_true_eq] at far
  rw [Backfill.rangeEnd, heightLimit]
  omega

/-! ## What is computed -/

open Routine (Computes)

theorem computes_checkNear (state : Backfill) (head backlog : Nat) :
    (state.checkNear head backlog : Routine σ Bool).Computes (state.isNear head backlog) := by
  rw [checkNear, isNear]
  split
  case isTrue behind =>
    rw [decide_eq_true (Or.inl behind)]
    exact .found
  case isFalse ahead =>
    simp only [ahead, false_or]
    exact (Computes.difference _ _).andThen ((Computes.sum _ _).andThen .found)

theorem computes_checkEnd (state : Backfill) (head backlog : Nat) :
    (state.checkEnd head backlog : Routine σ Nat).Computes (state.rangeEnd head backlog) :=
  (Computes.difference _ _).andThen .found

theorem computes_checkAdvance (state : Backfill) (config : Config) (block : Block)
    (rangeEnd : Nat) :
    (state.checkAdvance config block rangeEnd : Routine σ Backfill).Computes
      (state.advance config block rangeEnd) :=
  (Computes.sum _ _).andThen ((Computes.sum _ _).andThen .found)

/-! ## What does not break off -/

theorem checkNear_eq (low : head + 1 < Word.size 64) :
    (state.checkNear head backlog : Routine σ Bool) = .done (state.isNear head backlog) := by
  rw [checkNear, isNear]
  split
  case isTrue behind =>
    rw [decide_eq_true (Or.inl behind)]
    rfl
  case isFalse ahead =>
    simp only [ahead, false_or]
    rw [Routine.difference_eq_done (Nat.le_of_not_lt ahead)]
    show (Routine.sum (head - state.origin) 1 >>= _ : Routine σ Bool) = _
    rw [Routine.sum_eq_done (by omega)]
    rfl

theorem size_le_of_checkNear {operation : Word.Operation}
    (halted : (state.checkNear head backlog : Routine σ Bool) = .halted (.overflow operation)) :
    Word.size 64 ≤ head + 1 := by
  refine Nat.le_of_not_lt fun low => ?_
  rw [checkNear_eq low] at halted
  cases halted

theorem checkEnd_eq (far : ¬ state.isNear head backlog) :
    (state.checkEnd head backlog : Routine σ Nat) = .done (state.rangeEnd head backlog) := by
  rw [isNear, decide_eq_true_eq] at far
  rw [checkEnd, Routine.difference_eq_done (by omega)]
  rfl

/-- Only the batch may lead out of the words behind a range that was stored. -/
theorem checkAdvance_eq (low : rangeEnd + 1 < Word.size 64) :
    (state.checkAdvance config block rangeEnd : Routine σ Backfill) =
      if state.batch + growth config < Word.size 64 then .done (state.advance config block rangeEnd)
      else .halted (.overflow .addition) := by
  rw [checkAdvance, Routine.sum_eq_done low]
  show (Routine.sum state.batch (growth config) >>= _ : Routine σ Backfill) = _
  rw [Routine.sum]
  split <;> rfl

theorem checkAdvance_of_fits (low : rangeEnd + 1 < Word.size 64) (fits : Fits config)
    (small : state.batch ≤ config.batchSize) :
    (state.checkAdvance config block rangeEnd : Routine σ Backfill) =
      .done (state.advance config block rangeEnd) := by
  rw [checkAdvance_eq low]
  exact if_pos (Nat.lt_of_le_of_lt (Nat.add_le_add_right small _) fits)

end Backfill

namespace Fork

/-- The smallest size whose growth leads out of the words: the sum is their number. -/
def overgrown : Config :=
  { maxBlockBacklog := 1, batchSize := 16769767339735956015 }

end Fork

end ReorgSync
