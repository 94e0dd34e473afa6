import ReorgSync.Proofs.Sync.Calls
import ReorgSync.Proofs.Sync.Work

namespace ReorgSync

/-! A delta takes its readers from one branch to another. On an honest node, no block that
it takes back is among those that it adds: the walk back from a candidate stops in front of
the first block of the window. -/

/-- The two branches of a delta have no block in common. -/
def Delta.Parts (delta : Delta) : Prop :=
  ∀ block ∈ delta.removed, block ∉ delta.added

/-- All deltas of a follower lead from branch to branch. -/
def Follower.PartsBranches (follower : Follower) : Prop :=
  ∀ delta ∈ follower.deltas.recent, delta.Parts

theorem Follower.partsBranches_make (backlog retryDelay : Nat) (capacity : Option Nat) :
    (Follower.make backlog retryDelay capacity).PartsBranches := by
  intro delta member
  cases capacity <;> cases member

theorem Window.ne_of_split?_eq_none {blocks : List Block} {hash : String}
    (absent : split? hash blocks = none) : ∀ block ∈ blocks, block.hash ≠ hash := by
  rintro block member rfl
  rcases exists_split? member with ⟨kept, newer, found⟩
  rw [absent] at found
  cases found

namespace Follower

open Routine (Quietly)

variable {tree : BlockTree} {headOf : ω → Block} {follower : Follower} {world : ω}

/-! ## Resolving -/

section Walks

variable {meanwhile : Follower → ω → Follower → ω → Prop} [IsPassing meanwhile]

/-- A walk back only adds blocks from outside the window. -/
theorem parts_link (height steps patience : Nat) {oldest : Block} {newer : List Block}
    (unlinked : Window.split? oldest.parentHash follower.window.blocks = none)
    (outside : ∀ block ∈ oldest :: newer, block ∉ follower.window.blocks) (state : Follower)
    (world : ω) :
    (follower.link height steps patience oldest newer).Quietly (tree.conduct headOf meanwhile)
      meanwhile (fun resolution _ _ => Delta.Parts ⟨resolution.added, resolution.removed⟩) state
      world := by
  induction steps generalizing patience oldest newer state world with
  | zero => exact .fail
  | succ steps induction =>
      apply Quietly.andThen (quietly_fetchParent_hash _ patience oldest state world)
      rintro ⟨parent, patience⟩ after later _ isParent
      have parentOutside : parent ∉ follower.window.blocks := fun member =>
        Window.ne_of_split?_eq_none unlinked parent member (tree.hash_eq isParent)
      have longer : ∀ block ∈ parent :: oldest :: newer, block ∉ follower.window.blocks := by
        intro block member
        rcases List.mem_cons.mp member with rfl | member
        · exact parentOutside
        · exact outside block member
      cases found : Window.split? parent.parentHash follower.window.blocks with
      | none =>
          simp only [found]
          exact induction patience found longer after later
      | some parts =>
          have window := (Window.split?_eq_some found).1
          simp only [found]
          refine .done fun block removed added => longer block added ?_
          rw [window]
          exact List.mem_append_right _ removed

theorem parts_resolve {candidate : Block} (fresh : follower.isStale candidate = false)
    (state : Follower) (world : ω) :
    (follower.resolve candidate).Quietly (tree.conduct headOf meanwhile) meanwhile
      (fun resolution _ _ => Delta.Parts ⟨resolution.added, resolution.removed⟩) state world := by
  have outside : ∀ block ∈ [candidate], block ∉ follower.window.blocks := by
    intro block isCandidate member
    rw [List.mem_singleton.mp isCandidate] at member
    rw [isStale, Bool.or_eq_false_iff, Window.find?, Option.isSome_eq_false_iff,
      Option.isNone_iff_eq_none, List.find?_eq_none] at fresh
    exact fresh.1 candidate (List.mem_reverse.mpr member) (beq_self_eq_true _)
  rw [resolve]
  split
  · exact .done fun _ isRemoved => (List.not_mem_nil isRemoved).elim
  · split
    case h_1 kept removed found =>
      have window := (Window.split?_eq_some found).1
      refine .done fun block isRemoved added => outside block added ?_
      rw [window]
      exact List.mem_append_right _ isRemoved
    case h_2 unlinked =>
      split
      · apply Quietly.andThen (quietly_anyAncestors _ _ _ candidate [] state world)
        exact fun blocks after later _ _ => .done fun _ isRemoved =>
          (List.not_mem_nil isRemoved).elim
      · exact parts_link _ _ _ unlinked outside state world

end Walks

/-! ## Publishing -/

/-- Others too publish only deltas from branch to branch. -/
def besideBranches (before : Follower) (_ : ω) (after : Follower) (_ : ω) : Prop :=
  before.PartsBranches → after.PartsBranches

instance : IsPassing (besideBranches (ω := ω)) where
  refl _ _ parts := parts
  trans earlier later parts := later (earlier parts)

theorem parts_reconcile (candidate : Block) (world : ω) :
    (reconcile candidate).Quietly (tree.conduct headOf besideBranches) besideBranches
      (fun _ _ _ => True) follower world := by
  apply Quietly.get_andThen
  dsimp only [id]
  split
  case isTrue => exact .done trivial
  case isFalse fresh =>
    apply Quietly.andThen (parts_resolve (Bool.eq_false_iff.mpr fresh) follower world)
    intro resolution after later _ parts
    apply Quietly.andThen .ofExcept
    intro window after later _ _
    apply Quietly.write
    · intro branches delta member
      rcases mem_recent_publish member with rfl | earlier
      · exact parts
      · exact branches delta earlier
    · exact .done trivial

theorem parts_fill (world : ω) :
    fill.Quietly (tree.conduct headOf besideBranches) besideBranches (fun _ _ _ => True) follower
      world := by
  apply Quietly.get_andThen
  apply Quietly.andThen .node
  intro found after later _ _
  cases found with
  | none => exact .fail
  | some head =>
      apply Quietly.andThen (quietly_anyAncestors _ _ _ head [] after later)
      intro blocks after later _ _
      refine .write (fun branches => branches) ?_
      split
      · exact .fail
      · exact .done trivial

end Follower

namespace Session

open Routine (OnlyWrites Quietly)

variable {ε : Type} {tree : BlockTree} {headOf : ω → Block} {session : Session ε} {world : ω}

theorem parts_refreshHead :
    refreshHead.Quietly (tree.conduct headOf (sharing Follower.besideBranches))
      (sharing Follower.besideBranches) (fun _ _ _ => True) session world := by
  have updated : ∀ {α : Type} (routine : Routine Follower α),
      (∀ (follower : Follower) (late : ω), routine.Quietly
        (tree.conduct headOf Follower.besideBranches) Follower.besideBranches (fun _ _ _ => True)
          follower late) →
      ∀ (now : Session ε) (late : ω), ((withFollower routine).guardedExclusively >>= fun _ =>
        followedHead? >>= blockOr "latest").Quietly
          (tree.conduct headOf (sharing Follower.besideBranches))
          (sharing Follower.besideBranches) (fun _ _ _ => True) now late := by
    intro α routine quietly now late
    apply Quietly.andThen (.guardedExclusively (fun _ _ _ _ _ _ _ => trivial) fun after later _ =>
      quietly_onFollower (quietly after.follower later))
    intro _ after later _ _
    refine OnlyWrites.quietly (.andThen (onlyWrites_inWindow _) fun _ _ => onlyWrites_blockOr _ _)
      fun _ _ _ => False.elim
  apply Quietly.andThen ((onlyWrites_call _).quietly fun _ _ _ => False.elim)
  intro found after later _ _
  apply Quietly.andThen ((onlyWrites_blockOr _ found).quietly fun _ _ _ => False.elim)
  intro latest after later _ _
  apply Quietly.get_andThen
  apply Quietly.andThen ((onlyWrites_inWindow _).quietly fun _ _ _ => False.elim)
  intro head? after later _ _
  cases head? with
  | none => exact updated _ (fun _ => Follower.parts_fill) after later
  | some head =>
      dsimp only
      split
      · exact updated _ (fun _ => Follower.parts_fill) after later
      · exact updated _ (fun _ => Follower.parts_reconcile latest) after later

end Session

end ReorgSync
