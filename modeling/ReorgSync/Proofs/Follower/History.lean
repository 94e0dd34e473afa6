import ReorgSync.Proofs.Follower

namespace ReorgSync

/-! A follower that is fed with candidates goes from window to window. Each delta
that it publishes says how the one window became the next. -/

/-- How a delta hangs together with the window that it changed: both of its parts
follow the same block of that window, or it begins above all of it. -/
inductive Delta.Joins (delta : Delta) (before : Window) : Prop
  | behind (kept : List Block) (base : Block) (split : before.blocks = kept ++ delta.removed)
      (isLast : kept.getLast? = some base)
      (removedNext : ∀ first ∈ delta.removed.head?, first.Extends base)
      (addedNext : ∀ first ∈ delta.added.head?, first.Extends base)
  | ahead (head : Block) (isHead : before.head? = some head) (removed : delta.removed = [])
      (above : ∀ block ∈ delta.added, head.number < block.number)

/-- A delta between branches of the tree takes one window to another. -/
structure Delta.Moves (delta : Delta) (tree : BlockTree) (before after : Window) : Prop where
  honest : delta.IsHonest tree
  joins : delta.Joins before
  newest : ∃ newest, delta.added.getLast? = some newest ∧ after.head? = some newest

namespace Follower

open Routine (Quietly)

variable {tree : BlockTree} {headOf : ω → Block} {follower after : Follower} {world : ω}
  {candidate : Block} {delta : Delta}

/-- No one else changes the follower. -/
def alone (before : Follower) (_ : ω) (after : Follower) (_ : ω) : Prop :=
  after = before

instance : IsPassing (alone (ω := ω)) where
  refl _ _ := rfl
  trans earlier later := later.trans earlier

/-- A resolution that is taken in moves the window. -/
theorem Resolution.Joins.moves {resolution : Resolution} {window : Window}
    (joins : resolution.Joins follower candidate) (isRun : tree.IsRun follower.window.blocks)
    (filled : follower.window.blocks ≠ []) (added : tree.IsRun resolution.added)
    (isLast : resolution.added.getLast? = some candidate)
    (pushed : { follower.window with blocks := resolution.kept }.pushAll resolution.added =
      .ok window) :
    Delta.Moves ⟨resolution.added, resolution.removed⟩ tree follower.window window := by
  have kept : Block.Linked resolution.kept := by
    cases joins with
    | first _ kept _ => rw [kept]; trivial
    | behind base split last next =>
        rw [split] at isRun
        exact isRun.left.1
    | ahead _ _ _ _ kept _ => rw [kept]; trivial
  rcases Window.pushAll_spec kept pushed with ⟨-, -, newest, linked⟩
  refine ⟨⟨added, (joins.isHonest isRun added pushed).2⟩, ?_, candidate, isLast, ?_⟩
  · cases joins with
    | first empty _ _ => exact absurd empty filled
    | behind base split last next =>
        have window := isRun.1
        rw [split] at window
        refine .behind resolution.kept base split last ?_ ?_
        · exact (Block.linked_append.mp window).2.2 base last
        · exact (Block.linked_append.mp linked).2.2 base last
    | ahead head isHead far length kept removed =>
        refine .ahead head isHead removed ?_
        cases blocks : resolution.added with
        | nil => simp [blocks] at length
        | cons oldest newer =>
            rw [blocks] at added isLast length
            have number := added.1.number_getLast
            have same : (oldest :: newer).getLast (List.cons_ne_nil _ _) = candidate := by
              rw [List.getLast_eq_iff_getLast?_eq_some]
              exact isLast
            rw [same] at number
            rw [List.length_cons] at length
            intro block member
            rcases List.mem_cons.mp member with rfl | member
            · omega
            · have := added.1.number_lt_of_mem block member
              omega
  · rw [newest, List.getLast?_append, isLast, Option.some_or]

theorem keeps_reconcile (contains : tree.Contains candidate) (honest : follower.IsHonest tree)
    (filled : follower.window.blocks ≠ []) :
    (reconcile candidate).Keeps (tree.conduct headOf alone) (fun _ _ => True)
      (Outcome.Meets (fun published after _ => published.elim (after = follower) fun delta =>
        delta.Moves tree follower.window after.window ∧ after.IsHonest tree) fun _ _ => True)
      follower world := by
  apply Routine.Keeps.get_andThen
  dsimp only [id]
  split
  case isTrue => exact rfl
  case isFalse =>
    apply (quietly_resolve follower contains follower world).andKeeps
      (fun _ _ _ => trivial) (fun _ _ _ => trivial) (IsPassing.refl follower world)
    intro resolution same later alone found
    rcases found with ⟨added, isLast, joins⟩
    rw [show same = follower from alone]
    cases pushed : { follower.window with blocks := resolution.kept }.pushAll resolution.added with
    | error error => trivial
    | ok window =>
        have moves := joins.moves honest.window filled added isLast pushed
        refine ⟨trivial, moves, (joins.isHonest honest.window added pushed).1, ?_⟩
        intro delta member
        rcases mem_recent_publish member with rfl | earlier
        · exact moves.honest
        · exact honest.deltas delta earlier

/-! ## Histories -/

/-- The deltas that a follower publishes while candidates are reconciled one after
the other, each with the window that it leads to. -/
inductive History (tree : BlockTree) (headOf : ω → Block) :
    Follower → List (Delta × Window) → Prop
  | here {follower : Follower} : History tree headOf follower []
  | published {follower after : Follower} {world later : ω} {candidate : Block} {delta : Delta}
      {trail : List (Delta × Window)} (contains : tree.Contains candidate)
      (ended : (reconcile candidate).Ends (tree.conduct headOf alone) follower world
        (.value (some delta)) after later)
      (further : History tree headOf after trail) :
      History tree headOf follower ((delta, after.window) :: trail)
  | unchanged {follower after : Follower} {world later : ω} {candidate : Block}
      {trail : List (Delta × Window)} (contains : tree.Contains candidate)
      (ended : (reconcile candidate).Ends (tree.conduct headOf alone) follower world
        (.value none) after later)
      (further : History tree headOf after trail) : History tree headOf follower trail

/-- Each delta of a trail moves the window in front of it. -/
def Trail (tree : BlockTree) : Window → List (Delta × Window) → Prop
  | _, [] => True
  | before, (delta, after) :: rest => delta.Moves tree before after ∧ Trail tree after rest

/-- The window that a trail ends with. -/
def lastWindow : Window → List (Delta × Window) → Window
  | window, [] => window
  | _, (_, window) :: rest => lastWindow window rest

theorem lastWindow_mem (window : Window) (trail : List (Delta × Window)) :
    lastWindow window trail ∈ window :: trail.map Prod.snd := by
  induction trail generalizing window with
  | nil => exact List.mem_cons_self
  | cons step rest induction =>
      rcases step with ⟨delta, next⟩
      exact List.mem_cons_of_mem window (induction next)

theorem History.trail {trail : List (Delta × Window)} (history : History tree headOf follower trail)
    (honest : follower.IsHonest tree) (filled : follower.window.blocks ≠ []) :
    Trail tree follower.window trail := by
  induction history with
  | here => trivial
  | published contains ended further induction =>
      have moved := (keeps_reconcile contains honest filled).ends ended
      rcases moved with ⟨moves, honestAfter⟩
      rcases moves.newest with ⟨newest, -, isHead⟩
      exact ⟨moves, induction honestAfter (List.ne_nil_of_mem (Window.mem_of_head? isHead))⟩
  | unchanged contains ended further induction =>
      have same := (keeps_reconcile contains honest filled).ends ended
      rw [show _ = _ from same] at induction
      exact induction honest filled

end Follower

end ReorgSync
