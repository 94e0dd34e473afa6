import ReorgSync.Proofs.Follower.Repair
import ReorgSync.Proofs.Follower.Patience

namespace ReorgSync

/-! What a failure leaves behind. A reconciliation works on a copy of the window and puts it
in place as a whole; a fill works on the window itself. So a fill that fails before it has
all its blocks changes nothing, and one whose blocks do not link leaves those in front of the
break. -/

/-- What holds of the error that a run ends with, if it ends with one. -/
def Outcome.OnError (holds : SyncError → Prop) : Outcome α → Prop
  | .error cause => holds cause
  | _ => True

namespace Follower

open Routine (Keeps Spends Quietly)

/-- Blocks as a node has answered them: the last one as its latest block, each of the others
for the parent hash of the block behind it. -/
structure AreAnswered (efforts : List Effort) (chain : List Block) : Prop where
  latest : ∃ head, chain.getLast? = some head ∧ .latest (some (.ok (some head))) ∈ efforts
  parents : chain.IsChain fun parent child => .call (.blockOf child.parentHash parent) ∈ efforts

/-- How a failure leaves a follower. -/
inductive Leaves (follower : Follower) (efforts : List Effort) : SyncError → Follower → Prop
  /-- It was not the order of the blocks that failed. -/
  | unchanged {cause : SyncError} (other : ∀ expected got, cause ≠ .nonContiguous expected got) :
      Leaves follower efforts cause follower
  | cutShort {front behind : List Block} {older newer : Block}
      (answered : AreAnswered efforts (front ++ older :: newer :: behind))
      (linked : Block.Linked (front ++ [older])) (apart : ¬ newer.Extends older) :
      Leaves follower efforts (.nonContiguous (older.number + 1) newer.number)
        { follower with window := { follower.window with blocks := front ++ [older] } }

/-! ## The blocks of a fill -/

theorem Searches.answered {retryDelay patience left : Nat} {child parent : Block}
    {efforts : List Effort}
    (searches : Searches retryDelay child patience (.value (parent, left)) efforts) :
    .call (.blockOf child.parentHash parent) ∈ efforts := by
  generalize ended : Outcome.value (parent, left) = outcome at searches
  induction searches with
  | found patience parent =>
      cases ended
      exact List.mem_singleton_self _
  | again _ induction => exact List.mem_cons_of_mem _ (List.mem_cons_of_mem _ (induction ended))
  | _ => cases ended

/-- A walk that fetches ancestors, or fails for want of one. -/
inductive Walks (count : Nat) (oldest : Block) (newer : List Block) :
    Outcome (List Block) → List Effort → Prop
  | reached {efforts : List Effort} (older : List Block) (length : older.length = count)
      (answered : (older ++ [oldest]).IsChain fun parent child =>
        .call (.blockOf child.parentHash parent) ∈ efforts) :
      Walks count oldest newer (.value (older ++ oldest :: newer)) efforts
  | failed {efforts : List Effort} {cause : SyncError}
      (other : ∀ expected got, cause ≠ .nonContiguous expected got) :
      Walks count oldest newer (.error cause) efforts

theorem Searches.not_nonContiguous {retryDelay patience : Nat} {child : Block}
    {cause : SyncError} {efforts : List Effort}
    (searches : Searches retryDelay child patience (.error cause) efforts) (expected got : Nat) :
    cause ≠ .nonContiguous expected got := by
  generalize ended : Outcome.error cause = outcome at searches
  induction searches with
  | again _ induction => exact induction ended
  | _ => cases ended <;> exact nofun

theorem not_nonContiguous_of_calls {call : Node.Call} {cause : SyncError} {efforts : List Effort}
    (calls : Routine.Calls call (.error cause) efforts) (expected got : Nat) :
    cause ≠ .nonContiguous expected got := by
  cases calls <;> exact nofun

section

variable {conduct : Conduct Follower ω} {state : Follower} {world : ω × List Effort}
  {isCancelable : Bool}

theorem walks_fetchAncestors (retryDelay count patience : Nat) (oldest : Block)
    (newer : List Block) :
    ((fetchAncestors retryDelay count patience oldest newer).interruptible isCancelable).Spends
      conduct (Walks count oldest newer) state world := by
  induction count generalizing patience oldest newer state world with
  | zero =>
      rw [fetchAncestors, Routine.pure_eq_done, Routine.interruptible_done]
      exact Spends.done (.reached [] rfl (.singleton oldest))
  | succ count induction =>
      rw [fetchAncestors, Routine.interruptible_bind]
      apply (spends_fetchParent retryDelay patience oldest).sequence
      · intro found efforts after later searches
        refine (induction found.2 found.1 (oldest :: newer)).mono fun outcome more walks => ?_
        cases walks with
        | failed other => exact .failed other
        | reached older length answered =>
            have same : older ++ found.1 :: oldest :: newer =
                (older ++ [found.1]) ++ oldest :: newer := by simp
            rw [same]
            -- The search links the parent that was found to the oldest block, and the rest of
            -- the walk links what it finds to that parent.
            refine .reached (older ++ [found.1]) (by simp [length]) ?_
            rw [List.isChain_append]
            refine ⟨answered.imp fun _ _ member => List.mem_append_right _ member,
              .singleton oldest, ?_⟩
            intro parent isLast child isFirst
            rw [List.getLast?_concat] at isLast
            cases isLast
            cases isFirst
            exact List.mem_append_left _ searches.answered
      · exact fun cause efforts searches => .failed searches.not_nonContiguous
      · exact fun _ _ searches => searches.isAffordable.ends.elim

end

/-! ## Calls that fail -/

section

variable {follower : Follower} {early : ω} {world : ω × List Effort} {isCancelable : Bool}

instance : ((Conduct.free alone).metered : Conduct Follower (ω × List Effort)).Within alone where
  asked accepted := accepted.1

/-- Work that changes nothing by itself, and its efforts. -/
theorem keeps_held {met : Outcome α → List Effort → Prop}
    {found : α → Follower → ω × List Effort → Prop} {routine : Routine Follower α}
    (spends : (routine.interruptible isCancelable).Spends (Conduct.free alone) met follower world)
    (quietly : routine.Quietly (Conduct.free alone).metered alone found follower world) :
    (routine.interruptible isCancelable).Keeps (Conduct.free alone).metered (fun _ _ => True)
      (fun outcome after later => after = follower ∧
        ∃ efforts, later.2 = world.2 ++ efforts ∧ met outcome efforts) follower world := by
  have both := Keeps.and spends (Quietly.interruptible isCancelable quietly)
  refine (both.mono_invariant fun _ _ _ => trivial).mono fun outcome after later holds => ?_
  cases outcome with
  | value value => exact ⟨holds.2.1, holds.1⟩
  | error cause => exact ⟨holds.2, holds.1⟩
  | halted cause => exact ⟨holds.2, holds.1⟩

/-- A reconciliation that fails changes nothing. -/
theorem keeps_reconcile_failing (candidate : Block) :
    ((reconcile candidate).interruptible isCancelable).Keeps (Conduct.free alone)
      (fun _ _ => True) (fun outcome after (_ : ω) => outcome.OnError fun _ => after = follower)
      follower early := by
  rw [reconcile, Routine.interruptible_bind, Routine.interruptible_get]
  apply Keeps.get_andThen
  dsimp only [id]
  split
  · rw [Routine.pure_eq_done, Routine.interruptible_done]
    trivial
  · simp only [Routine.interruptible_bind, Routine.interruptible_ofExcept,
      Routine.interruptible_modify, Routine.pure_eq_done, Routine.interruptible_done]
    have resolved : ((follower.resolve candidate).interruptible isCancelable).Quietly
        (Conduct.free alone) alone (fun _ _ _ => True) follower early :=
      ((joins_resolve follower candidate follower early).interruptible isCancelable).mono
        fun _ _ _ _ _ => trivial
    apply (resolved.keeps (fun _ _ _ => trivial) fun _ _ same => same).bind
    · intro resolution after later found
      cases { follower.window with blocks := resolution.kept }.pushAll resolution.added with
      | error cause => exact found.1
      | ok window => exact ⟨trivial, trivial⟩
    · exact fun _ _ _ same => same
    · exact fun _ _ _ _ => trivial

theorem keeps_fill_failing (positive : 0 < follower.backlog)
    (capacity : follower.window.capacity = follower.backlog) :
    (fill.interruptible isCancelable).Keeps (Conduct.free alone).metered (fun _ _ => True)
      (fun outcome after later => ∃ efforts, later.2 = world.2 ++ efforts ∧
        outcome.OnError fun cause => Leaves follower efforts cause after) follower world := by
  rw [fill, Routine.interruptible_bind, Routine.interruptible_get]
  apply Keeps.get_andThen
  dsimp only [id]
  rw [Routine.interruptible_bind]
  apply (keeps_held (Routine.spends_node _) Quietly.node).sequence
  case halts =>
    intro _ _ _ holds
    rcases holds with ⟨-, _, -, calls⟩
    cases calls
  case fails =>
    intro cause after later holds
    rcases holds with ⟨same, efforts, heard, calls⟩
    rw [same]
    exact ⟨efforts, heard, .unchanged (not_nonContiguous_of_calls calls)⟩
  case continues =>
    intro found after later holds
    rcases holds with ⟨same, asked, heard, calls⟩
    rw [same]
    cases calls
    cases found with
    | none =>
        dsimp only
        rw [Routine.interruptible_fail]
        refine ⟨_, heard, .unchanged fun _ _ same => ?_⟩
        cases same
    | some head =>
        have heardAll : ∀ {final : ω × List Effort} {walk : List Effort},
            final.2 = later.2 ++ walk →
              final.2 = world.2 ++ .latest (some (.ok (some head))) :: walk := by
          intro final walk heardThen
          rw [heardThen, heard, List.append_assoc]
          rfl
        simp only [Routine.interruptible_bind, Routine.interruptible_modify]
        apply (keeps_held (walks_fetchAncestors _ _ _ head [])
          (quietly_anyAncestors _ _ _ head [] _ _)).sequence
        case halts =>
          intro _ _ _ holds
          rcases holds with ⟨-, _, -, walks⟩
          cases walks
        case fails =>
          intro cause _ final holds
          rcases holds with ⟨same, walk, heardThen, walks⟩
          rw [same]
          refine ⟨_, heardAll heardThen, ?_⟩
          cases walks with
          | failed other => exact .unchanged other
        case continues =>
          intro chain _ final holds
          rcases holds with ⟨same, walk, heardThen, walks⟩
          rw [same]
          cases walks with
          | reached older length answered =>
              have empty : { follower.window with blocks := [] : Window }.IsSound
                  follower.backlog := ⟨trivial, capacity, Nat.zero_le _⟩
              have room : ([] ++ (older ++ [head])).length ≤ follower.backlog := by
                rw [List.nil_append, List.length_append, List.length_singleton, length]
                omega
              refine ⟨trivial, ?_⟩
              -- From here on the old window is gone, and the room is enough for all blocks.
              rcases empty.pushUntilError_eq room with
                unbroken | ⟨front, below, above, behind, split, linked, apart, broken⟩
              · rw [unbroken, Routine.pure_eq_done, Routine.interruptible_done]
                exact ⟨_, heardAll heardThen, trivial⟩
              · rw [broken, Routine.interruptible_fail]
                refine ⟨_, heardAll heardThen, ?_⟩
                have allAnswered : AreAnswered (.latest (some (.ok (some head))) :: walk)
                    (front ++ below :: above :: behind) := by
                  rw [← split, List.nil_append]
                  exact ⟨⟨head, List.getLast?_concat, List.mem_cons_self⟩,
                    answered.imp fun _ _ member => List.mem_cons_of_mem _ member⟩
                exact .cutShort allAnswered linked apart

end

/-- A reconciliation that fails leaves the follower as it was, whatever was answered. A fill
that fails does so too, unless the blocks that it was answered do not link; then it has
replaced the window by those in front of the break, and left the rest of the follower. -/
theorem failed_call_leaves (configured retryDelay : Nat) (capacity : Option Nat)
    (blocks : List Block) (deltas : Feed Delta) (isCancelable : Bool) (early : ω)
    (world : ω × List Effort) :
    let follower : Follower := { make configured retryDelay capacity with
      window := ⟨blocks, max configured 1⟩, deltas }
    (∀ candidate cause after late,
      ((reconcile candidate).interruptible isCancelable).Ends (Conduct.free alone) follower early
        (.error cause) after late → after = follower) ∧
    ∀ cause after later,
      (fill.interruptible isCancelable).Ends (Conduct.free alone).metered follower world
        (.error cause) after later →
      ∃ efforts, later.2 = world.2 ++ efforts ∧ Leaves follower efforts cause after := by
  intro follower
  constructor
  · intro candidate cause after late ended
    exact (keeps_reconcile_failing candidate).ends ended
  · intro cause after later ended
    have positive : 0 < max configured 1 := Nat.le_max_right _ _
    exact (keeps_fill_failing positive rfl).ends ended

/-- A node whose latest block names a parent of another height. -/
def gapReply : (call : Node.Call) → call.Reply
  | .blockByTag _ => .ok (some ⟨9, "top", "mid", 0⟩)
  | .blockByHash "mid" _ => .ok (some ⟨5, "mid", "low", 0⟩)
  | _ => .error (.transport "")

def gap : Surroundings Follower Unit :=
  .calm (fun _ _ => gapReply) fun _ _ => ()

theorem gap_follows : gap.Follows (Conduct.free alone) := by
  intro query state world answer after later answered
  cases answered
  exact rfl

theorem failed_call_leaves_at_gap :
    let before := filledWith [Fork.left 1, Fork.left 2]
    let reconciled := (reconcile (Fork.right 3)).run gap before ()
    let filled := fill.run gap.metering before ((), [])
    reconciled.1 = .error (.node (.transport "")) ∧ reconciled.2.1 = before ∧
      filled.1 = .error (.nonContiguous 6 9) ∧
      Leaves before filled.2.2.2 (.nonContiguous 6 9) filled.2.1 := by
  intro before reconciled filled
  have reconciledEnds := Routine.ends_run gap_follows (reconcile (Fork.right 3)) before ()
  have filledEnds := Routine.ends_run (Surroundings.metering_follows gap_follows) fill before
    ((), [])
  have failed := failed_call_leaves 2 0 none [Fork.left 1, Fork.left 2] .unbounded false ()
    ((), [])
  rcases failed.2 _ _ _ filledEnds with ⟨efforts, heard, leaves⟩
  refine ⟨rfl, failed.1 _ _ _ _ reconciledEnds, rfl, ?_⟩
  rw [show filled.2.2.2 = efforts from heard]
  exact leaves

/-- A fill that fails leaves another window than the one before. -/
theorem failed_fill_cuts_window_at_gap :
    let before := filledWith [Fork.left 1, Fork.left 2]
    let ended := fill.run gap before ()
    ended.1 = .error (.nonContiguous 6 9) ∧ ended.2.1.window.blocks = [⟨5, "mid", "low", 0⟩] ∧
      ended.2.1.window ≠ before.window :=
  ⟨rfl, by decide +kernel, by decide +kernel⟩

end Follower

end ReorgSync
