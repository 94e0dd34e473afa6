import ReorgSync.Proofs.Sync.Termination

namespace ReorgSync

/-! The heights and batches of a backfill are words, and it breaks off at the first sum or
difference that is none. While all heads are in the lower half of the words, its heights never
lead out of them, whatever the node answers. Its batch does behind the first range that is
stored, unless the configured size leaves room for one growth above it. -/

namespace Backfill

variable {config : Config} {state next : Backfill} {limit : Nat}

theorem growth_lt (isWord : config.batchSize < Word.size 64) : growth config < Word.size 64 :=
  Nat.max_lt.mpr ⟨Nat.lt_of_le_of_lt (Nat.div_le_self _ 10) isWord, by decide⟩

theorem Goes.batch_le (goes : Goes config limit state next)
    (small : state.batch ≤ config.batchSize) : next.batch ≤ config.batchSize := by
  cases goes with
  | shrinks splittable => exact Nat.le_trans (Nat.div_le_self _ 2) small
  | advances block rangeEnd ordered below fits => exact grown_le config _

end Backfill

namespace Session

open Routine (Halts Turn Turns)

variable {ε ω : Type} [EntryStore ε] {session : Session ε} {world : ω} {config : Config}
  {now next : Standing (Session ε) ω Backfill}

/-- The one figure of a turn that may be no word is the batch behind a range that it stored.
Where that is none, the turn does not go on behind the range. -/
structure OnlyOutgrows (conduct : Conduct (Session ε) ω) (config : Config)
    (now : Standing (Session ε) ω Backfill) : Prop where
  halts : ∀ operation (after : Session ε) (later : ω),
    Halts conduct (backfillStep config) now after later (.halted (.overflow operation)) →
      operation = .addition ∧ Word.size 64 ≤ now.place.batch + Backfill.growth config ∧
        ∃ before logs block, EntryStore.apply before (.append logs block) = .ok after.entry
  advances : ∀ next, Turn conduct (backfillStep config) now next →
    now.place.origin < next.place.origin →
      now.place.batch + Backfill.growth config < Word.size 64

theorem onlyOutgrows_of_headsUpTo {limit : Nat} (low : limit + 1 < Word.size 64)
    (now : Standing (Session ε) ω Backfill) :
    OnlyOutgrows (Conduct.headsUpTo limit) config now where
  halts operation after later halts := by
    cases (keeps_backfillStep (Nat.lt_of_succ_lt low)).ends halts with
    | outgrows stored tooLarge => exact ⟨rfl, tooLarge, _, _, _, stored⟩
    | outreaches tooHigh => exact absurd low (Nat.not_lt_of_le tooHigh)
  advances next turn raised := by
    rcases next with ⟨place, after, later⟩
    cases (keeps_backfillStep (Nat.lt_of_succ_lt low)).ends turn with
    | goesOn goes =>
        cases goes with
        | shrinks splittable => exact absurd raised (Nat.lt_irrefl _)
        | advances block rangeEnd ordered below fits => exact fits low

/-- No turn leaves a backfill with a batch above the configured size. -/
theorem batch_le_of_turns {limit count : Nat} {begun : Standing (Session ε) ω Backfill}
    (bounded : limit < Word.size 64) (small : begun.place.batch ≤ config.batchSize)
    (turns : Turns (Conduct.headsUpTo limit) (backfillStep config) begun count now) :
    now.place.batch ≤ config.batchSize := by
  refine turns.preserves (fun now => now.place.batch ≤ config.batchSize) ?_ small
  intro now next turn small
  cases (keeps_backfillStep bounded).ends turn with
  | goesOn goes => exact goes.batch_le small

/-- While all heads are in the lower half of the words, every sum and difference of a
backfill is a word, in each turn and whatever is answered, with one exception: the batches
stay words if and only if the configured size does, with its growth added. If it does, no
backfill breaks off at a figure. If it does not, the first range that is stored is where it
breaks off. -/
theorem backfill_figures_are_words {origin : Nat} {last? : Option Block}
    (isWord : config.batchSize < Word.size 64) :
    let conduct : Conduct (Session ε) ω := Conduct.headsUpTo (Word.size 63 - 1)
    let reached := Turns conduct (backfillStep config)
      ⟨{ origin, last := last?, batch := config.batchSize }, session, world⟩
    Backfill.growth config < Word.size 64 ∧
      (∀ count now, reached count now → OnlyOutgrows conduct config now) ∧
      ((∀ count now, reached count now →
          now.place.batch + Backfill.growth config < Word.size 64) ↔ Backfill.Fits config) ∧
      (Backfill.Fits config →
        ∀ turns operation after later, ¬ (backfill config turns origin last?).Ends conduct session
          world (.halted (.overflow operation)) after later) := by
  intro conduct reached
  have outgrows : ∀ now, OnlyOutgrows conduct config now :=
    onlyOutgrows_of_headsUpTo (by decide)
  have batches : Backfill.Fits config → ∀ count now, reached count now →
      now.place.batch + Backfill.growth config < Word.size 64 := by
    intro fits count now turns
    have small := batch_le_of_turns (by decide) (Nat.le_refl _) turns
    exact Nat.lt_of_le_of_lt (Nat.add_le_add_right small _) fits
  refine ⟨Backfill.growth_lt isWord, fun count now _ => outgrows now,
    ⟨fun words => words 0 _ .none, batches⟩, ?_⟩
  intro fits turns operation after later ended
  have begun : reached 0 _ := .none
  rcases Routine.ends_iterate begun ended with ⟨count, last, taken, halts | ⟨-, cutOff, -⟩⟩
  · have tooLarge := ((outgrows last).halts operation after later halts).2.1
    exact Nat.not_lt_of_le tooLarge (batches fits count last taken)
  · cases cutOff

end Session

/-! ## A batch that leads out of the words -/

namespace Session

open Routine (Turns)

theorem backfill_figures_are_words_at_fork :
    let config : Config := { maxBlockBacklog := 1, batchSize := 2 }
    let begun : Backfill := { origin := 0, last := none, batch := 2 }
    let refused : Backfill := { origin := 0, last := none, batch := 1 }
    config.batchSize < Word.size 64 ∧
      (∃ after later, Turns (Conduct.headsUpTo (Word.size 63 - 1)) (backfillStep config)
        ⟨begun, Fork.session, ()⟩ 1 ⟨refused, after, later⟩) ∧
      refused.batch + Backfill.growth config < Word.size 64 ∧
      ∀ operation, ((backfill config 20 0 none).run Fork.refusing Fork.session ()).1 ≠
        .halted (.overflow operation) := by
  intro config begun refused
  have isWord : config.batchSize < Word.size 64 := by decide
  have follows : Fork.refusing.Follows (Conduct.headsUpTo (Word.size 63 - 1)) := by
    apply Surroundings.calm_follows_headsUpTo
    intro _ _ head isHead
    cases isHead
    decide
  have same : ((backfillStep config begun).run Fork.refusing Fork.session ()).1.value? =
      some (.inl refused) := by decide +kernel
  let start : Standing (Session Entry) Unit Backfill := ⟨begun, Fork.session, ()⟩
  have turn := @Routine.turn_of_run _ _ _ _ _ _ start _ _ follows same
  rcases @backfill_figures_are_words Entry Unit _ Fork.session () config 0 none isWord with
    ⟨-, -, batches, never⟩
  have turns := Turns.more .none turn
  refine ⟨isWord, ⟨_, _, turns⟩, batches.mpr (by decide) 1 _ turns, fun operation overflows => ?_⟩
  have ended := Routine.ends_run follows (backfill config 20 0 none) Fork.session ()
  rw [overflows] at ended
  exact never (by decide) _ _ _ _ ended

/-- The first range is stored, and the sum behind it is no word. -/
theorem batch_overflows_at_fork :
    let begun : Backfill := { origin := 0, last := none, batch := Fork.overgrown.batchSize }
    let surroundings : Surroundings (Session Entry) Nat := .scripted Fork.tree fun _ => Fork.left 3
    let ended := (backfillStep Fork.overgrown begun).run surroundings Fork.session 0
    Fork.overgrown.batchSize < Word.size 64 ∧
      begun.batch + Backfill.growth Fork.overgrown = Word.size 64 ∧
      ended.1 = .halted (.overflow .addition) ∧
      ended.2.1.entry.lastBlock = some (Fork.left 2) := by
  decide +kernel

end Session

end ReorgSync
