import ReorgSync.Proofs.Follower.History
import ReorgSync.Proofs.Tree.Node

namespace ReorgSync

/-! Whatever a node answers, the window of a follower is linked and no longer than
it may be, and who saw a window can replay the published deltas on it. -/

/-- The first block that a delta adds extends the head of a window. -/
def Delta.Follows (delta : Delta) (window : Window) : Prop :=
  ∀ head ∈ window.head?, ∀ first ∈ delta.added.head?, first.Extends head

instance (delta : Delta) (window : Window) : Decidable (delta.Follows window) :=
  inferInstanceAs (Decidable (∀ head ∈ window.head?, ∀ first ∈ delta.added.head?,
    first.Extends head))

/-- A delta replayed on a window: the removed blocks are its newest ones, the added
ones take their place, and the newest blocks of all stay. A delta that removes
nothing and does not follow the window begins a new one. -/
def Delta.Replays (delta : Delta) (limit : Nat) (before after : Window) : Prop :=
  ∃ kept, before.blocks = kept ++ delta.removed ∧
    after.blocks =
      ((if delta.removed = [] ∧ ¬ delta.Follows before then [] else kept) ++
        delta.added).rtake limit

namespace Follower

open Routine (Quietly Keeps)

variable {follower after : Follower} {world : ω} {candidate : Block} {limit : Nat}
  {isCancelable : Bool}

/-- A follower of so many blocks, whose window is linked and no longer than that. -/
structure IsSound (follower : Follower) (limit : Nat) : Prop where
  backlog : follower.backlog = limit
  window : follower.window.IsSound limit

theorem isSound_make (backlog retryDelay : Nat) (capacity : Option Nat) :
    (make backlog retryDelay capacity).IsSound (max backlog 1) where
  backlog := rfl
  window := ⟨trivial, Nat.max_eq_left (Nat.le_max_right _ _), Nat.zero_le _⟩

/-- A candidate that the window has already, or that is below all of it. -/
def IsOld (candidate : Block) (window : Window) : Prop :=
  (∃ block ∈ window.blocks, block.hash = candidate.hash) ∨
    ∃ oldest ∈ window.oldest?, candidate.number < oldest.number

theorem isStale_iff : follower.isStale candidate = true ↔ IsOld candidate follower.window := by
  rw [isStale, Bool.or_eq_true, IsOld]
  refine or_congr ?_ ?_
  · simp [Window.find?]
  · cases oldest : follower.window.oldest? with
    | none => simp
    | some oldest => simp

/-- What one reconciliation does: an old candidate and every failure change nothing,
and otherwise the delta that is answered is published and can be replayed. -/
def Changes (limit : Nat) (candidate : Block) (before : Follower)
    (outcome : Outcome (Option Delta)) (after : Follower) : Prop :=
  (outcome = .value none ↔ IsOld candidate before.window) ∧
    match outcome with
    | .value (some delta) =>
        ∃ window, after = { before with window, deltas := before.deltas.publish delta } ∧
          delta.Replays limit before.window window
    | _ => after = before

/-- What a resolution adds is taken in as its delta says. -/
theorem Resolution.Joins.replays {resolution : Resolution} {window : Window}
    (joins : resolution.Joins follower candidate) (sound : follower.IsSound limit)
    (positive : 0 < limit) (isLast : resolution.added.getLast? = some candidate)
    (pushed : { follower.window with blocks := resolution.kept }.pushAll resolution.added =
      .ok window) :
    window.IsSound limit ∧
      Delta.Replays ⟨resolution.added, resolution.removed⟩ limit follower.window window := by
  have keptSound : { follower.window with blocks := resolution.kept : Window }.IsSound limit := by
    have empty : { follower.window with blocks := [] : Window }.IsSound limit :=
      ⟨trivial, sound.window.capacity_eq, Nat.zero_le _⟩
    cases joins with
    | first _ kept _ => rwa [kept]
    | ahead _ _ _ _ kept _ => rwa [kept]
    | behind base split last next =>
        have linked := sound.window.linked
        have length := sound.window.length_le
        rw [split] at linked length
        rw [List.length_append] at length
        exact ⟨(Block.linked_append.mp linked).1, sound.window.capacity_eq, by dsimp only; omega⟩
  have linked := (Window.pushAll_spec keptSound.linked pushed).2.2.2
  rw [keptSound.pushAll_eq positive linked] at pushed
  cases pushed
  refine ⟨keptSound.rtake linked, ?_⟩
  cases joins with
  | first empty kept removed => exact ⟨[], by rw [empty, removed, List.append_nil], by simp [kept]⟩
  | behind base split last next =>
      refine ⟨resolution.kept, split, ?_⟩
      rw [if_neg]
      rintro ⟨nothingRemoved, notFollowing⟩
      apply notFollowing
      intro head isHead
      rw [Window.head?, split, show resolution.removed = [] from nothingRemoved,
        List.append_nil] at isHead
      exact (Block.linked_append.mp linked).2.2 head isHead
  | ahead head isHead far length kept removed =>
      refine ⟨follower.window.blocks, by rw [removed, List.append_nil], ?_⟩
      rw [if_pos, kept]
      refine ⟨removed, fun follows => ?_⟩
      cases blocks : resolution.added with
      | nil => simp [blocks] at length
      | cons first newer =>
          rw [kept, List.nil_append, blocks] at linked
          rw [blocks] at isLast length
          have next := (follows head isHead first (by simp [blocks])).1
          have number := linked.number_getLast
          rw [(List.getLast_eq_iff_getLast?_eq_some (List.cons_ne_nil _ _)).mpr isLast] at number
          have backlog := sound.backlog
          rw [List.length_cons] at length
          omega

theorem keeps_reconcile_anyNode (sound : follower.IsSound limit) (positive : 0 < limit) :
    ((reconcile candidate).interruptible isCancelable).Keeps (Conduct.free alone)
      (fun after (_ : ω) => after.IsSound limit)
      (fun outcome after _ => Changes limit candidate follower outcome after ∧ after.IsSound limit)
      follower world := by
  rw [reconcile, Routine.interruptible_bind, Routine.interruptible_get]
  apply Keeps.get_andThen
  dsimp only [id]
  split
  case isTrue stale =>
    rw [Routine.pure_eq_done, Routine.interruptible_done]
    exact ⟨⟨by simp [isStale_iff.mp stale], rfl⟩, sound⟩
  case isFalse fresh =>
    rw [isStale_iff] at fresh
    have unchanged : ∀ outcome : Outcome (Option Delta), outcome.value? = none →
        Changes limit candidate follower outcome follower := by
      intro outcome stopped
      cases outcome with
      | value _ => cases stopped
      | error _ => exact ⟨by simp [fresh], rfl⟩
      | halted cause => exact ⟨by simp [fresh], rfl⟩
    simp only [Routine.interruptible_bind, Routine.interruptible_ofExcept,
      Routine.interruptible_modify, Routine.pure_eq_done, Routine.interruptible_done]
    have stays : ∀ after (later : ω), alone follower world after later → after = follower :=
      fun _ _ same => same
    have resolved : ((follower.resolve candidate).interruptible isCancelable).Quietly
        (Conduct.free alone) alone (fun resolution _ _ =>
          resolution.added.getLast? = some candidate ∧ resolution.Joins follower candidate)
        follower world :=
      (joins_resolve follower candidate follower world).interruptible isCancelable
    refine (resolved.keeps (fun after later same => ?_) stays).bind ?_ ?_ ?_
    · rw [stays after later same]
      exact sound
    · intro resolution after later found
      rcases found with ⟨same, isLast, joins⟩
      rw [show after = follower from same]
      cases pushed : { follower.window with blocks := resolution.kept }.pushAll
          resolution.added with
      | error error => exact ⟨unchanged (.error error) rfl, sound⟩
      | ok window =>
          rcases joins.replays sound positive isLast pushed with ⟨windowSound, replays⟩
          exact ⟨⟨sound.backlog, windowSound⟩, ⟨by simp [fresh], window, rfl, replays⟩,
            sound.backlog, windowSound⟩
    · rintro error after later rfl
      exact ⟨unchanged (.error error) rfl, sound⟩
    · rintro cause after later rfl
      exact ⟨unchanged (.halted cause) rfl, sound⟩

theorem keeps_fill_anyNode (sound : follower.IsSound limit) (positive : 0 < limit) :
    (fill.interruptible isCancelable).Keeps (Conduct.free alone)
      (fun after (_ : ω) => after.IsSound limit)
      (Outcome.Meets (fun _ after _ => after.IsSound limit) fun after _ => after.IsSound limit)
      follower world := by
  rw [fill, Routine.interruptible_bind, Routine.interruptible_get]
  apply Keeps.get_andThen
  dsimp only [id]
  have stays : ∀ after (later : ω), alone follower world after later → after.IsSound limit := by
    rintro _ _ rfl
    exact sound
  have empty : { follower.window with blocks := [] : Window }.IsSound limit :=
    ⟨trivial, sound.window.capacity_eq, Nat.zero_le _⟩
  rw [Routine.interruptible_bind]
  refine Quietly.andKeeps stays stays (IsPassing.refl follower world)
    (Quietly.interruptible isCancelable .node) ?_
  intro found after later same _
  cases found with
  | none =>
      rw [Routine.interruptible_fail]
      exact stays after later same
  | some head =>
      simp only [Routine.interruptible_bind, Routine.interruptible_modify]
      refine Quietly.andKeeps stays stays same
        (Quietly.interruptible isCancelable (quietly_anyAncestors _ _ _ _ _ after later)) ?_
      intro chain after later same _
      have filled : ({ follower.window with blocks := [] }.pushUntilError chain).1.IsSound limit :=
        empty.pushUntilError positive
      have soundAfter : IsSound { after with
          window := ({ follower.window with blocks := [] }.pushUntilError chain).1 } limit :=
        ⟨(stays after later same).backlog, filled⟩
      refine ⟨soundAfter, ?_⟩
      cases ({ follower.window with blocks := [] }.pushUntilError chain).2 with
      | none =>
          simp only [Routine.pure_eq_done, Routine.interruptible_done]
          exact soundAfter
      | some error =>
          simp only [Routine.interruptible_fail]
          exact soundAfter

/-! ## Serving -/

/-- What a follower can be called for; each call may or may not be given up on
cancellation. -/
inductive Request where
  | fill (isCancelable : Bool)
  | reconcile (isCancelable : Bool) (candidate : Block)

def Request.work : Request → Routine Follower Unit
  | .fill isCancelable => Follower.fill.interruptible isCancelable
  | .reconcile isCancelable candidate => do
      let _ ← (Follower.reconcile candidate).interruptible isCancelable

/-- One call after the other, whatever becomes of the ones before. -/
def serve (requests : List Request) : Routine Follower Unit :=
  Routine.inTurn (requests.map Request.work)

theorem Request.keeps_work (request : Request) (sound : follower.IsSound limit)
    (positive : 0 < limit) :
    request.work.Keeps (Conduct.free alone) (fun after (_ : ω) => after.IsSound limit)
      (Outcome.Meets (fun _ after _ => after.IsSound limit) fun after _ => after.IsSound limit)
      follower world := by
  cases request with
  | fill isCancelable => exact keeps_fill_anyNode sound positive
  | reconcile isCancelable candidate =>
      have reconciled : ((Follower.reconcile candidate).interruptible isCancelable).Keeps
          (Conduct.free alone) (fun after (_ : ω) => after.IsSound limit)
          (Outcome.Meets (fun _ after _ => after.IsSound limit) fun after _ => after.IsSound limit)
          follower world := by
        refine (keeps_reconcile_anyNode sound positive).mono fun outcome after later holds => ?_
        cases outcome <;> exact holds.2
      exact reconciled.andThen fun _ _ _ soundAfter => soundAfter

theorem keeps_serve (requests : List Request) (sound : follower.IsSound limit)
    (positive : 0 < limit) :
    (serve requests).Keeps (Conduct.free alone) (fun after (_ : ω) => after.IsSound limit)
      (Outcome.Meets (fun _ after _ => after.IsSound limit) fun after _ => after.IsSound limit)
      follower world := by
  refine Keeps.inTurn (fun work member state world sound => ?_) sound
  rcases List.mem_map.mp member with ⟨request, -, rfl⟩
  exact request.keeps_work sound positive

/-- Whatever a node answers and whatever candidates a follower is given, its window
stays linked and within the limit, and each reconciliation either changes nothing or
publishes the one delta that takes the old window to the new one. -/
theorem window_replays_deltas (backlog retryDelay : Nat) (capacity : Option Nat)
    (requests : List Request) (world : ω) {now : Situation Follower ω Unit}
    (reached : Situation.Reaches (Conduct.free alone)
      ⟨serve requests, make backlog retryDelay capacity, world⟩ now) :
    now.state.window.blocks.length ≤ max backlog 1 ∧ Block.Linked now.state.window.blocks ∧
      ∀ (candidate : Block) (isCancelable : Bool) (moment later : ω)
        (outcome : Outcome (Option Delta)) (after : Follower),
        ((reconcile candidate).interruptible isCancelable).Ends (Conduct.free alone)
          now.state moment outcome after later →
        Changes (max backlog 1) candidate now.state outcome after := by
  have positive : 0 < max backlog 1 := Nat.le_max_right _ _
  have stable : Routine.Stable (Conduct.free alone)
      fun (follower : Follower) (_ : ω) => follower.IsSound (max backlog 1) := by
    intro _ state world _ after later same sound
    rwa [show after = state from same]
  have start := isSound_make backlog retryDelay capacity
  have sound := Keeps.preserved reached stable (keeps_serve requests start positive) start
  refine ⟨sound.window.length_le, sound.window.linked, ?_⟩
  intro candidate isCancelable moment later outcome after ended
  exact ((keeps_reconcile_anyNode sound positive).ends ended).1

/-- A follower goes from the left branch of a fork to the right one and on, and the
oldest block of its window makes room. -/
theorem window_replays_deltas_across_fork :
    let surroundings : Surroundings Follower Nat := .scripted Fork.tree fun _ => Fork.left 2
    let served := (serve [.fill false, .reconcile true (Fork.right 2)]).run surroundings
      (make 3 0 none) 0
    let ended := ((reconcile (Fork.right 3)).interruptible true).run surroundings served.2.1 0
    served.2.1.window.blocks = [Fork.root, Fork.right 1, Fork.right 2] ∧
      served.2.1.deltas.recent = [⟨[Fork.right 1, Fork.right 2], [Fork.left 1, Fork.left 2]⟩] ∧
      ended.2.1.window.blocks = [Fork.right 1, Fork.right 2, Fork.right 3] ∧
      Changes 3 (Fork.right 3) served.2.1 ended.1 ended.2.1 := by
  intro surroundings served ended
  have follows : surroundings.Follows (Conduct.free alone) := by
    intro query state world answer after later answered
    cases answered
    exact rfl
  have reached := Routine.ends_run follows (serve [.fill false, .reconcile true (Fork.right 2)])
    (make 3 0 none) 0
  have reconciled := Routine.ends_run follows
    ((reconcile (Fork.right 3)).interruptible true) served.2.1 0
  exact ⟨by decide +kernel, by decide +kernel, by decide +kernel,
    (window_replays_deltas 3 0 none _ 0 reached).2.2 _ true 0 _ _ _ reconciled⟩

end Follower

end ReorgSync
