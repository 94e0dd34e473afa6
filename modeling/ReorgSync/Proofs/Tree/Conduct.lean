import ReorgSync.Proofs.Routine.Quietly
import ReorgSync.Proofs.Tree.Logs
import ReorgSync.Sync.Live

namespace ReorgSync

/-! A node is honest if everything it says about blocks and logs is true of the
tree and of the head at the moment of the answer. It may fail, and it may miss
blocks; and between any two answers another block may become the head. -/

namespace BlockTree

/-- What an honest node may reply while a block is the head. -/
def Truthful (tree : BlockTree) (head : Block) : (call : Node.Call) → call.Reply → Prop
  | .height, .ok height => height = head.number
  | .blockByTag .latest, .ok found => ∀ block, found = some block → block = head
  | .blockByTag (.number height), .ok found =>
      ∀ block, found = some block → (tree.path head)[height]? = some block
  | .blockByHash hash _, .ok found => ∀ block, found = some block → tree.block? hash = some block
  | .logs ⟨filter, .range first last⟩, .ok logs =>
      logs = tree.logsAlong filter ((tree.path head).filter fun block =>
        decide (first ≤ block.number ∧ block.number ≤ last))
  | .logs ⟨filter, .blockHash hash⟩, .ok logs => logs = (tree.logs hash).filter filter.matchesLog
  | .chainId, .ok _ => True
  | _, .error _ => True

/-- Questions that are no calls to the node may be answered in any way. -/
def Answers (tree : BlockTree) (head : Block) : (query : Query) → query.Answer → Prop
  | .node call, reply => tree.Truthful head call reply
  | .cancelableNode call, some reply => tree.Truthful head call reply
  | _, _ => True

/-- The conduct of surroundings with an honest node, where `meanwhile` limits
what happens to the state and the world until an answer arrives. -/
def conduct (tree : BlockTree) (headOf : ω → Block) (meanwhile : σ → ω → σ → ω → Prop) :
    Conduct σ ω :=
  fun query state world answer after later =>
    meanwhile state world after later ∧ tree.Contains (headOf later) ∧
      tree.Answers (headOf later) query answer

end BlockTree

namespace BlockTree

variable {tree : BlockTree} {headOf : ω → Block} {meanwhile : σ → ω → σ → ω → Prop}

instance : (tree.conduct headOf meanwhile).Within meanwhile where
  asked accepted := accepted.1

instance : (tree.conduct headOf meanwhile).GivesUp where
  node accepted := accepted
  pause accepted := ⟨accepted.1, accepted.2.1, trivial⟩

end BlockTree

/-! ## Honest followers -/

/-- A delta between branches of the tree. -/
structure Delta.IsHonest (delta : Delta) (tree : BlockTree) : Prop where
  added : tree.IsRun delta.added
  removed : tree.IsRun delta.removed

instance (delta : Delta) (tree : BlockTree) : Decidable (delta.IsHonest tree) :=
  decidable_of_iff (_ ∧ _)
    ⟨fun ⟨added, removed⟩ => { added, removed }, fun honest => ⟨honest.added, honest.removed⟩⟩

/-- A follower that only saw blocks of the tree. -/
structure Follower.IsHonest (follower : Follower) (tree : BlockTree) : Prop where
  window : tree.IsRun follower.window.blocks
  deltas : ∀ delta ∈ follower.deltas.recent, delta.IsHonest tree

namespace Follower

/-- Others may use the follower too: they may feed it with any blocks of the
tree, but they cannot configure it anew. -/
structure Passes (tree : BlockTree) (before after : Follower) : Prop where
  backlog : after.backlog = before.backlog
  retryDelay : after.retryDelay = before.retryDelay
  honest : before.IsHonest tree → after.IsHonest tree

theorem Passes.refl (tree : BlockTree) (follower : Follower) : follower.Passes tree follower where
  backlog := rfl
  retryDelay := rfl
  honest holds := holds

theorem Passes.trans {tree : BlockTree} {first second third : Follower}
    (earlier : first.Passes tree second) (later : second.Passes tree third) :
    first.Passes tree third where
  backlog := later.backlog.trans earlier.backlog
  retryDelay := later.retryDelay.trans earlier.retryDelay
  honest holds := later.honest (earlier.honest holds)

end Follower

/-! ## Moving heads -/

/-- How the head of the canonical chain may move between two answers. -/
structure Movement (ω : Type) where
  headOf : ω → Block
  moves : ω → ω → Prop
  refl : ∀ world, moves world world
  trans : ∀ {early middle late}, moves early middle → moves middle late → moves early late

namespace Movement

/-- The head may move to any block. -/
def anywhere (headOf : ω → Block) : Movement ω where
  headOf
  moves _ _ := True
  refl _ := trivial
  trans _ _ := trivial

/-- The head only ever moves up, and the canonical block of a height stays once the
head is so far above it. -/
def shallow (tree : BlockTree) (headOf : ω → Block) (backlog : Nat) : Movement ω where
  headOf
  moves early late :=
    (headOf early).number ≤ (headOf late).number ∧
      ∀ height, height + backlog ≤ (headOf early).number →
        (tree.path (headOf late))[height]? = (tree.path (headOf early))[height]?
  refl _ := ⟨Nat.le_refl _, fun _ _ => rfl⟩
  trans earlier later := by
    refine ⟨Nat.le_trans earlier.1 later.1, fun height below => ?_⟩
    rw [later.2 height (Nat.le_trans below earlier.1), earlier.2 height below]

/-- What may happen to a follower while an answer is awaited. -/
def besideFollower (movement : Movement ω) (tree : BlockTree) :
    Follower → ω → Follower → ω → Prop :=
  fun before early after late => before.Passes tree after ∧ movement.moves early late

/-- What may happen to a session: only its follower is shared with others. -/
def besideSession (movement : Movement ω) (tree : BlockTree) :
    Session ε → ω → Session ε → ω → Prop :=
  fun before early after late =>
    after = { before with follower := after.follower } ∧
      movement.besideFollower tree before.follower early after.follower late

instance (movement : Movement ω) (tree : BlockTree) :
    IsPassing (movement.besideFollower tree) where
  refl follower world := ⟨.refl tree follower, movement.refl world⟩
  trans earlier later := ⟨earlier.1.trans later.1, movement.trans earlier.2 later.2⟩

instance (movement : Movement ω) (tree : BlockTree) :
    IsPassing (movement.besideSession (ε := ε) tree) where
  refl session world := ⟨rfl, IsPassing.refl session.follower world⟩
  trans earlier later := by
    refine ⟨?_, IsPassing.trans earlier.2 later.2⟩
    rw [later.1, earlier.1]

end Movement

namespace Session

/-- What may happen to a session of which the follower alone is shared with others. -/
def sharing (meanwhile : Follower → ω → Follower → ω → Prop) :
    Session ε → ω → Session ε → ω → Prop :=
  fun before early after late =>
    after = { before with follower := after.follower } ∧
      meanwhile before.follower early after.follower late

instance {meanwhile : Follower → ω → Follower → ω → Prop} [IsPassing meanwhile] :
    IsPassing (sharing (ε := ε) meanwhile) where
  refl session world := ⟨rfl, IsPassing.refl session.follower world⟩
  trans earlier later := by
    refine ⟨?_, IsPassing.trans earlier.2 later.2⟩
    rw [later.1, earlier.1]

variable {tree : BlockTree}

/-- Work on the follower, seen from a session. -/
theorem quietly_onFollower {headOf : ω → Block} {meanwhile : Follower → ω → Follower → ω → Prop}
    {found : α → Follower → ω → Prop} {routine : Routine Follower α} {session : Session ε}
    {world : ω}
    (quietly : routine.Quietly (tree.conduct headOf meanwhile) meanwhile found session.follower
      world) :
    (withFollower routine).Quietly (tree.conduct headOf (sharing meanwhile)) (sharing meanwhile)
      (fun value after later => found value after.follower later) session world := by
  have keeps : ∀ (now : Session ε) (late : ω), now = { session with follower := now.follower } →
      routine.Keeps (tree.conduct headOf meanwhile) (meanwhile session.follower world)
        (Outcome.Meets (fun value after later =>
            meanwhile session.follower world after later ∧ found value after later)
          (meanwhile session.follower world)) now.follower late →
      (withFollower routine).Keeps (tree.conduct headOf (sharing meanwhile))
        (sharing meanwhile session world)
        (Outcome.Meets (fun value after later =>
            sharing meanwhile session world after later ∧ found value after.follower later)
          (sharing meanwhile session world)) now late := by
    clear quietly
    induction routine with
    | done value => exact fun now late frame holds => ⟨⟨frame, holds.1⟩, holds.2⟩
    | fail error => exact fun now late frame holds => ⟨frame, holds⟩
    | halted cause => exact fun now late frame holds => ⟨frame, holds⟩
    | read next induction =>
        exact fun now late frame holds => induction now.follower now late frame holds
    | write changed next induction =>
        intro now late frame holds
        have changedFrame : ({ now with follower := changed } : Session ε) =
            { session with follower := changed } := by
          rw [frame]
        exact ⟨⟨changedFrame, holds.1⟩,
          induction { now with follower := changed } late changedFrame holds.2⟩
    | ask query next induction =>
        intro now late frame holds answer after later accepted
        have afterFrame : after = { session with follower := after.follower } := by
          rw [accepted.1.1, frame]
        exact induction answer after later afterFrame
          (holds answer after.follower later ⟨accepted.1.2, accepted.2⟩)
  exact keeps session world rfl quietly

theorem quietly_withFollower {movement : Movement ω} {found : α → Follower → ω → Prop}
    {routine : Routine Follower α} {session : Session ε} {world : ω}
    (quietly : routine.Quietly (tree.conduct movement.headOf (movement.besideFollower tree))
      (movement.besideFollower tree) found session.follower world) :
    (withFollower routine).Quietly (tree.conduct movement.headOf (movement.besideSession tree))
      (movement.besideSession tree) (fun value after later => found value after.follower later)
      session world :=
  quietly_onFollower quietly

end Session

end ReorgSync
