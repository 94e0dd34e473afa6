import ReorgSync.Proofs.Tree.Conduct
import ReorgSync.Proofs.Window

namespace ReorgSync

/-! A follower of an honest node only ever holds and publishes blocks of the tree,
linked to one another. -/

/-- A reply that is no failure is true of the head at that moment. -/
theorem BlockTree.quietly_node {tree : BlockTree} {headOf : ω → Block}
    {meanwhile : σ → ω → σ → ω → Prop} [IsPassing meanwhile] (call : Node.Call)
    (state : σ) (world : ω) :
    (Routine.node call).Quietly (tree.conduct headOf meanwhile) meanwhile
      (fun value _ later =>
        tree.Contains (headOf later) ∧ tree.Truthful (headOf later) call (.ok value))
      state world := by
  refine Routine.Quietly.ask fun reply after later accepted => ?_
  cases reply with
  | ok value => exact .done accepted.2
  | error error => exact .fail

namespace Follower

open Routine (Quietly)

/-! ## Resolving a candidate -/

/-- How the added blocks of a resolution hang together with a window: they are
its first blocks, or follow a block that is kept, or begin so far ahead that
nothing is kept. -/
inductive Resolution.Joins (resolution : Resolution) (follower : Follower)
    (candidate : Block) : Prop
  | first (empty : follower.window.blocks = []) (kept : resolution.kept = [])
      (removed : resolution.removed = [])
  | behind (base : Block)
      (window : follower.window.blocks = resolution.kept ++ resolution.removed)
      (last : resolution.kept.getLast? = some base)
      (next : ∀ first ∈ resolution.added.head?, first.parentHash = base.hash)
  | ahead (head : Block) (isHead : follower.window.head? = some head)
      (far : head.number + follower.backlog < candidate.number)
      (length : resolution.added.length = follower.backlog - 1 + 1)
      (kept : resolution.kept = []) (removed : resolution.removed = [])

section AnyNode

/-! What a resolution looks like does not hang on the node's answers. -/

variable {conduct : Conduct Follower ω} {meanwhile : Follower → ω → Follower → ω → Prop}
  [IsPassing meanwhile] [conduct.Within meanwhile]

theorem quietly_anyParent (retryDelay patience : Nat) (child : Block) (follower : Follower)
    (world : ω) :
    (fetchParent retryDelay child patience).Quietly conduct meanwhile (fun _ _ _ => True)
      follower world := by
  induction patience generalizing follower world with
  | zero =>
      apply Quietly.andThen .node
      intro reply after later _ _
      cases reply with
      | some parent => exact .done trivial
      | none => exact .fail
  | succ patience induction =>
      apply Quietly.andThen .node
      intro reply after later _ _
      cases reply with
      | some parent => exact .done trivial
      | none => exact .ask fun _ after later _ => induction after later

theorem quietly_anyAncestors (retryDelay count patience : Nat) (oldest : Block)
    (newer : List Block) (follower : Follower) (world : ω) :
    (fetchAncestors retryDelay count patience oldest newer).Quietly conduct meanwhile
      (fun blocks _ _ => ∃ older, older.length = count ∧ blocks = older ++ oldest :: newer)
      follower world := by
  induction count generalizing patience oldest newer follower world with
  | zero => exact .done ⟨[], rfl, rfl⟩
  | succ count induction =>
      apply Quietly.andThen (quietly_anyParent retryDelay patience oldest follower world)
      intro found after later _ _
      refine (induction found.2 found.1 (oldest :: newer) after later).mono ?_
      intro blocks _ _ _ holds
      rcases holds with ⟨older, length, rfl⟩
      exact ⟨older ++ [found.1], by simp [length], by simp⟩

theorem joins_link (follower : Follower) (candidate : Block) (steps patience : Nat)
    (oldest : Block) (newer : List Block) (state : Follower) (world : ω) :
    (follower.link candidate.number steps patience oldest newer).Quietly conduct meanwhile
      (fun resolution _ _ => (∃ older, resolution.added = older ++ oldest :: newer) ∧
        resolution.Joins follower candidate) state world := by
  induction steps generalizing patience oldest newer state world with
  | zero => exact .fail
  | succ steps induction =>
      apply Quietly.andThen (quietly_anyParent _ patience oldest state world)
      intro found after later _ _
      rcases found with ⟨parent, patience⟩
      cases found : Window.split? parent.parentHash follower.window.blocks with
      | some parts =>
          rcases parts with ⟨kept, removed⟩
          rcases Window.split?_eq_some found with ⟨window, base, last, same⟩
          simp only [found]
          refine .done ⟨⟨[parent], rfl⟩, .behind base window last ?_⟩
          intro _ same
          cases same
          exact same.symm
      | none =>
          simp only [found]
          refine (induction patience parent (oldest :: newer) after later).mono ?_
          intro resolution _ _ _ holds
          rcases holds with ⟨⟨older, added⟩, joins⟩
          exact ⟨⟨older ++ [parent], by simp [added]⟩, joins⟩

theorem joins_resolve (follower : Follower) (candidate : Block) (state : Follower) (world : ω) :
    (follower.resolve candidate).Quietly conduct meanwhile
      (fun resolution _ _ => resolution.added.getLast? = some candidate ∧
        resolution.Joins follower candidate) state world := by
  rw [resolve]
  cases isHead : follower.window.head? with
  | none =>
      have empty : follower.window.blocks = [] := List.getLast?_eq_none_iff.mp isHead
      exact .done ⟨rfl, .first empty rfl rfl⟩
  | some head =>
      cases found : Window.split? candidate.parentHash follower.window.blocks with
      | some parts =>
          rcases parts with ⟨kept, removed⟩
          rcases Window.split?_eq_some found with ⟨window, base, last, same⟩
          refine .done ⟨rfl, .behind base window last ?_⟩
          intro _ same
          cases same
          exact same.symm
      | none =>
          by_cases far : head.number + follower.backlog < candidate.number
          · simp only [far, if_true]
            apply Quietly.andThen (quietly_anyAncestors _ _ _ candidate [] state world)
            intro blocks after later _ holds
            rcases holds with ⟨older, length, rfl⟩
            refine .done ⟨by simp, .ahead head isHead far ?_ rfl rfl⟩
            simp [length]
          · simp only [far, if_false]
            refine (joins_link follower candidate _ _ candidate [] state world).mono ?_
            intro resolution _ _ _ holds
            rcases holds with ⟨⟨older, added⟩, joins⟩
            exact ⟨by simp [added], joins⟩

end AnyNode

variable {tree : BlockTree} {headOf : ω → Block}

/-! ## Walks towards the root -/

section Walks

variable {meanwhile : Follower → ω → Follower → ω → Prop} [IsPassing meanwhile]

/-- The parent that is fetched has the hash that its child names. -/
theorem quietly_fetchParent_hash (retryDelay patience : Nat) (child : Block) (follower : Follower)
    (world : ω) :
    (fetchParent retryDelay child patience).Quietly (tree.conduct headOf meanwhile) meanwhile
      (fun found _ _ => tree.block? child.parentHash = some found.1) follower world := by
  induction patience generalizing follower world with
  | zero =>
      apply Quietly.andThen (tree.quietly_node _ follower world)
      intro reply after later _ truthful
      cases reply with
      | some parent => exact .done (truthful.2 parent rfl)
      | none => exact .fail
  | succ patience induction =>
      apply Quietly.andThen (tree.quietly_node _ follower world)
      intro reply after later _ truthful
      cases reply with
      | some parent => exact .done (truthful.2 parent rfl)
      | none => exact .ask fun _ after later _ => induction after later

theorem quietly_fetchParent {child : Block} (contains : tree.Contains child)
    (retryDelay patience : Nat) (follower : Follower) (world : ω) :
    (fetchParent retryDelay child patience).Quietly (tree.conduct headOf meanwhile) meanwhile
      (fun found _ _ => tree.Contains found.1 ∧ child.Extends found.1) follower world :=
  (quietly_fetchParent_hash retryDelay patience child follower world).mono fun _ _ _ _ found =>
    ⟨BlockTree.contains_of_block? found, BlockTree.extends_of_block? contains found⟩

theorem isRun_fetchAncestors (retryDelay count patience : Nat) {oldest : Block}
    {newer : List Block} (run : tree.IsRun (oldest :: newer)) (follower : Follower) (world : ω) :
    (fetchAncestors retryDelay count patience oldest newer).Quietly
      (tree.conduct headOf meanwhile) meanwhile (fun blocks _ _ => tree.IsRun blocks)
      follower world := by
  induction count generalizing patience oldest newer follower world with
  | zero => exact .done run
  | succ count induction =>
      have contains := run.2 oldest List.mem_cons_self
      apply Quietly.andThen
        (quietly_fetchParent contains retryDelay patience follower world)
      intro found after later _ holds
      exact induction found.2 (run.cons holds.1 holds.2) after later

theorem isRun_link (follower : Follower) (height steps patience : Nat)
    {oldest : Block} {newer : List Block} (run : tree.IsRun (oldest :: newer))
    (state : Follower) (world : ω) :
    (follower.link height steps patience oldest newer).Quietly
      (tree.conduct headOf meanwhile) meanwhile (fun resolution _ _ => tree.IsRun resolution.added)
      state world := by
  induction steps generalizing patience oldest newer state world with
  | zero => exact .fail
  | succ steps induction =>
      have contains := run.2 oldest List.mem_cons_self
      apply Quietly.andThen
        (quietly_fetchParent contains _ patience state world)
      intro found after later _ holds
      have longer := run.cons holds.1 holds.2
      dsimp only
      split
      · exact .done longer
      · exact induction found.2 longer after later

theorem quietly_resolve (follower : Follower) {candidate : Block}
    (contains : tree.Contains candidate) (state : Follower) (world : ω) :
    (follower.resolve candidate).Quietly (tree.conduct headOf meanwhile) meanwhile
      (fun resolution _ _ => tree.IsRun resolution.added ∧
        resolution.added.getLast? = some candidate ∧
        resolution.Joins follower candidate) state world := by
  have single := BlockTree.isRun_singleton contains
  refine Quietly.and ?_ (joins_resolve follower candidate state world)
  rw [resolve]
  split
  · exact .done single
  · split
    · exact .done single
    · split
      · apply Quietly.andThen (isRun_fetchAncestors _ _ _ single state world)
        exact fun blocks after later _ isRun => .done isRun
      · exact isRun_link follower _ _ _ single state world

end Walks

/-! ## Filling and reconciling -/

variable {movement : Movement ω}

theorem quietly_fill (follower : Follower) (world : ω) :
    fill.Quietly (tree.conduct movement.headOf (movement.besideFollower tree))
      (movement.besideFollower tree) (fun _ _ _ => True) follower world := by
  apply Quietly.get_andThen
  apply Quietly.andThen (tree.quietly_node _ follower world)
  intro found after later _ truthful
  cases found with
  | none => exact .fail
  | some head =>
      have contains : tree.Contains head := by
        rw [truthful.2 head rfl]
        exact truthful.1
      apply Quietly.andThen (isRun_fetchAncestors _ _ _
        (BlockTree.isRun_singleton contains) after later)
      intro blocks after later _ isRun
      have filled := Window.pushUntilError_spec { follower.window with blocks := [] } blocks trivial
      have run : tree.IsRun
          ({ follower.window with blocks := [] }.pushUntilError blocks).1.blocks :=
        ⟨filled.1, fun block member =>
          isRun.2 block ((filled.2 block member).resolve_left List.not_mem_nil)⟩
      apply Quietly.andThen
        (.modify ⟨⟨rfl, rfl, fun honest => ⟨run, honest.deltas⟩⟩, movement.refl later⟩)
      intro _ after later _ _
      split
      · exact .fail
      · exact .done trivial

/-- What a resolution adds is taken in as a whole, and it leaves an honest window
and an honest delta. -/
theorem Resolution.Joins.isHonest {resolution : Resolution} {follower : Follower}
    {candidate : Block} {after : Window} (joins : resolution.Joins follower candidate)
    (window : tree.IsRun follower.window.blocks) (added : tree.IsRun resolution.added)
    (pushed : { follower.window with blocks := resolution.kept }.pushAll resolution.added =
      .ok after) :
    tree.IsRun after.blocks ∧ tree.IsRun resolution.removed := by
  have parts : tree.IsRun resolution.kept ∧ tree.IsRun resolution.removed := by
    cases joins with
    | first empty kept removed =>
        rw [kept, removed]
        exact ⟨BlockTree.isRun_nil, BlockTree.isRun_nil⟩
    | behind base split last next =>
        rw [split] at window
        exact ⟨window.left, window.right⟩
    | ahead head isHead far length kept removed =>
        rw [kept, removed]
        exact ⟨BlockTree.isRun_nil, BlockTree.isRun_nil⟩
  rcases Window.pushAll_spec parts.1.1 pushed with ⟨linked, members, -, -⟩
  refine ⟨⟨linked, fun block member => ?_⟩, parts.2⟩
  rcases members block member with kept | isAdded
  · exact parts.1.2 block kept
  · exact added.2 block isAdded

theorem mem_recent_publish {deltas : Feed Delta} {delta other : Delta}
    (member : other ∈ (deltas.publish delta).recent) : other = delta ∨ other ∈ deltas.recent := by
  rw [Feed.publish] at member
  cases capacity : deltas.capacity with
  | none => simpa [capacity] using member
  | some kept =>
      simp only [capacity] at member
      exact List.mem_cons.mp (List.mem_of_mem_take member)

theorem quietly_reconcile {candidate : Block} (contains : tree.Contains candidate)
    {follower : Follower} (honest : follower.IsHonest tree) (world : ω) :
    (reconcile candidate).Quietly (tree.conduct movement.headOf (movement.besideFollower tree))
      (movement.besideFollower tree) (fun _ _ _ => True) follower world := by
  apply Quietly.get_andThen
  by_cases stale : follower.isStale candidate
  · simp only [id, stale, if_true]
    exact .done trivial
  · simp only [id, stale]
    apply Quietly.andThen (quietly_resolve follower contains follower world)
    intro resolution after later _ holds
    rcases holds with ⟨added, -, joins⟩
    apply Quietly.andThen .ofExcept
    intro window after later _ holds
    rcases joins.isHonest honest.window added holds.1 with ⟨isRun, removed⟩
    have deltas : after.IsHonest tree → ∀ delta ∈ (after.deltas.publish
        ⟨resolution.added, resolution.removed⟩).recent, delta.IsHonest tree := by
      intro honest delta member
      rcases mem_recent_publish member with rfl | earlier
      · exact ⟨added, removed⟩
      · exact honest.deltas delta earlier
    apply Quietly.andThen
      (.modify ⟨⟨rfl, rfl, fun honest => ⟨isRun, deltas honest⟩⟩, movement.refl later⟩)
    exact fun _ after later _ _ => .done trivial

end Follower

end ReorgSync
