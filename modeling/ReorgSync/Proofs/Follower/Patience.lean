import ReorgSync.Proofs.Routine.Efforts
import ReorgSync.Proofs.Tree.Node

namespace ReorgSync

/-! How long others may have to wait for a follower. Whatever a node answers, and however
late it serves a parent, a walk over ancestors takes a bounded number of calls, and a
bounded number of pauses over all the parents that it looks for. -/

namespace Follower

open Routine (Spends)

/-! ## One parent -/

/-- How the search for a parent may go, if it may pause so many times. -/
inductive Searches (retryDelay : Nat) (child : Block) :
    Nat → Outcome (Block × Nat) → List Effort → Prop
  | found (patience : Nat) (parent : Block) :
      Searches retryDelay child patience (.value (parent, patience))
        [.call (.blockOf child.parentHash parent)]
  | missing :
      Searches retryDelay child 0 (.error (.blockNotFound child.parentHash))
        [.notFound child.parentHash]
  | failed (patience : Nat) (error : NodeError) :
      Searches retryDelay child patience (.error (.node error))
        [.call ⟨.blockByHash child.parentHash false, some (.error error)⟩]
  | givenUp (patience : Nat) :
      Searches retryDelay child patience (.error .canceled)
        [.call ⟨.blockByHash child.parentHash false, none⟩]
  | givenUpPausing (patience : Nat) :
      Searches retryDelay child (patience + 1) (.error .canceled)
        [.notFound child.parentHash, .pause retryDelay]
  | again {patience : Nat} {outcome : Outcome (Block × Nat)} {efforts : List Effort}
      (searches : Searches retryDelay child patience outcome efforts) :
      Searches retryDelay child (patience + 1) outcome
        (.notFound child.parentHash :: .pause retryDelay :: efforts)

section

variable {conduct : Conduct Follower ω} {state : Follower} {world : ω × List Effort}
  {isCancelable : Bool}

theorem spends_fetchParent (retryDelay patience : Nat) (child : Block) :
    ((fetchParent retryDelay child patience).interruptible isCancelable).Spends conduct
      (Searches retryDelay child patience) state world := by
  induction patience generalizing state world with
  | zero =>
      rw [fetchParent, Routine.interruptible_bind]
      apply (Routine.spends_node _).sequence
      · intro reply efforts after later calls
        cases calls
        cases reply with
        | some parent =>
            dsimp only
            rw [Routine.pure_eq_done, Routine.interruptible_done]
            exact .done (.found 0 parent)
        | none =>
            rw [Routine.interruptible_fail]
            exact .fail .missing
      · intro cause efforts calls
        cases calls with
        | failed error => exact .failed 0 error
        | givenUp => exact .givenUp 0
      · exact nofun
  | succ patience induction =>
      rw [fetchParent, Routine.interruptible_bind]
      apply (Routine.spends_node _).sequence
      · intro reply efforts after later calls
        cases calls
        cases reply with
        | some parent =>
            dsimp only
            rw [Routine.pure_eq_done, Routine.interruptible_done]
            exact .done (.found (patience + 1) parent)
        | none =>
            rw [Routine.interruptible_bind]
            apply (Routine.spends_pause retryDelay).sequence
            · intro _ efforts after later paused
              rw [paused.2]
              exact induction.mono fun outcome more searches => .again searches
            · intro cause efforts paused
              rcases paused with ⟨same | same, rfl⟩ <;> cases same
              exact .givenUpPausing patience
            · intro cause efforts paused
              rcases paused.1 with same | same <;> cases same
      · intro cause efforts calls
        cases calls with
        | failed error => exact .failed _ error
        | givenUp => exact .givenUp _
      · exact nofun

/-! ## What a walk costs -/

/-- A walk that finds at most so many parents, and pauses at most so many times: each
question that finds nothing is followed by a pause, or ends the walk. It gives a parent up
only if its patience is at an end. -/
structure IsAffordable (parents patience : Nat) (outcome : Outcome α) (efforts : List Effort) :
    Prop where
  ends : outcome.HasReturned
  lookups : Effort.lookups efforts ≤ parents + Effort.pauses efforts
  pauses : Effort.pauses efforts ≤ patience
  missing : ∀ hash, outcome = .error (.blockNotFound hash) →
    Effort.pauses efforts = patience
  either : ∀ effort ∈ efforts, effort.isLookup ∨ effort.isPause

namespace IsAffordable

variable {parents patience left : Nat} {outcome : Outcome α} {efforts more : List Effort}

theorem free (parents patience : Nat) (value : α) :
    IsAffordable parents patience (.value value) [] where
  ends := trivial
  lookups := Nat.zero_le _
  pauses := Nat.zero_le _
  missing := nofun
  either := nofun

/-- The same efforts, for another end that gives no parent up. -/
theorem endingIn {other : Outcome β} (affordable : IsAffordable parents patience outcome efforts)
    (ends : other.HasReturned) (missing : ∀ hash, other = .error (.blockNotFound hash) →
      outcome = .error (.blockNotFound hash)) :
    IsAffordable parents patience other efforts where
  ends
  lookups := affordable.lookups
  pauses := affordable.pauses
  missing hash same := affordable.missing hash (missing hash same)
  either := affordable.either

theorem ofValue (affordable : IsAffordable parents patience outcome efforts) (value : β) :
    IsAffordable parents patience (.value value) efforts :=
  affordable.endingIn trivial nofun

theorem ofCause {cause : SyncError}
    (affordable : IsAffordable parents patience (.error cause : Outcome α) efforts) :
    IsAffordable parents patience (.error cause : Outcome β) efforts :=
  affordable.endingIn trivial fun hash same => by cases same; rfl

theorem mono {most : Nat} (affordable : IsAffordable parents patience outcome efforts)
    (within : parents ≤ most) : IsAffordable most patience outcome efforts where
  ends := affordable.ends
  lookups := Nat.le_trans affordable.lookups (Nat.add_le_add_right within _)
  pauses := affordable.pauses
  missing := affordable.missing
  either := affordable.either

/-- Where nothing is found, one more question and one more pause. -/
theorem again {hash : String} {time : Nat}
    (affordable : IsAffordable parents patience outcome efforts) :
    IsAffordable parents (patience + 1) outcome (.notFound hash :: .pause time :: efforts) where
  ends := affordable.ends
  lookups := by
    have lookups := affordable.lookups
    rw [Effort.lookups_again, Effort.pauses_again]
    omega
  pauses := by
    rw [Effort.pauses_again]
    exact Nat.succ_le_succ affordable.pauses
  missing hash same := by
    rw [Effort.pauses_again, affordable.missing hash same]
  either := by
    intro effort member
    rcases List.mem_cons.mp member with rfl | member
    · exact .inl rfl
    · rcases List.mem_cons.mp member with rfl | member
      · exact .inr rfl
      · exact affordable.either effort member

/-- A single question. It gives a parent up only where there is no patience. -/
theorem lookup {effort : Effort} (isLookup : effort.isLookup = true)
    (isPause : effort.isPause = false) (ends : outcome.HasReturned)
    (missing : ∀ hash, outcome = .error (.blockNotFound hash) → patience = 0) :
    IsAffordable 1 patience outcome [effort] where
  ends
  lookups := by simp [Effort.lookups, isLookup]
  pauses := by simp [Effort.pauses, isPause]
  missing hash same := by simp [Effort.pauses, isPause, missing hash same]
  either := by simp [isLookup]

end IsAffordable

theorem Searches.isAffordable {retryDelay patience : Nat} {child : Block}
    {outcome : Outcome (Block × Nat)} {efforts : List Effort}
    (searches : Searches retryDelay child patience outcome efforts) :
    IsAffordable 1 patience outcome efforts := by
  induction searches with
  | again _ induction => exact induction.again
  | givenUpPausing patience => exact (IsAffordable.free 1 patience ()).again.endingIn trivial nofun
  | missing => exact .lookup rfl rfl trivial fun _ _ => rfl
  | _ => exact .lookup rfl rfl trivial nofun

/-- Patience that is not left was spent on pauses. -/
theorem Searches.left {retryDelay patience left : Nat} {child parent : Block}
    {efforts : List Effort}
    (searches : Searches retryDelay child patience (.value (parent, left)) efforts) :
    Effort.pauses efforts + left = patience := by
  generalize ended : Outcome.value (parent, left) = outcome at searches
  induction searches with
  | found patience parent =>
      cases ended
      exact Nat.zero_add _
  | again _ induction =>
      have counted := induction ended
      rw [Effort.pauses_again]
      omega
  | _ => cases ended

/-- A walk that goes on with the patience that is left. -/
theorem Searches.andThen {retryDelay patience left parents : Nat} {child parent : Block}
    {outcome : Outcome α} {efforts more : List Effort}
    (searches : Searches retryDelay child patience (.value (parent, left)) efforts)
    (affordable : IsAffordable parents left outcome more) :
    IsAffordable (parents + 1) patience outcome (efforts ++ more) where
  ends := affordable.ends
  lookups := by
    -- Each part pays for its own questions, so no account of what is left is needed here.
    have first := searches.isAffordable.lookups
    have behind := affordable.lookups
    rw [Effort.lookups_append, Effort.pauses_append]
    omega
  pauses := by
    have spent := searches.left
    have behind := affordable.pauses
    rw [Effort.pauses_append]
    omega
  missing hash same := by
    have spent := searches.left
    have behind := affordable.missing hash same
    rw [Effort.pauses_append]
    omega
  either := by
    intro effort member
    rcases List.mem_append.mp member with first | behind
    · exact searches.isAffordable.either effort first
    · exact affordable.either effort behind

/-! ## Walks -/

/-- A walk is a search for a parent and what is done with the parent that is found. -/
theorem spends_search {retryDelay patience parents : Nat} {child : Block}
    {continuation : Block × Nat → Routine Follower α}
    (continues : ∀ parent left after later,
      ((continuation (parent, left)).interruptible isCancelable).Spends conduct
        (IsAffordable parents left) after later) :
    ((fetchParent retryDelay child patience >>= continuation).interruptible isCancelable).Spends
      conduct (IsAffordable (parents + 1) patience) state world := by
  rw [Routine.interruptible_bind]
  apply (spends_fetchParent retryDelay patience child).sequence
  · intro found efforts after later searches
    exact (continues found.1 found.2 after later).mono fun outcome more affordable =>
      searches.andThen affordable
  · intro cause efforts searches
    exact (searches.isAffordable.mono (Nat.le_add_left 1 parents)).ofCause
  · exact fun _ _ searches => searches.isAffordable.ends.elim

theorem spends_fetchAncestors (retryDelay count patience : Nat) (oldest : Block)
    (newer : List Block) :
    ((fetchAncestors retryDelay count patience oldest newer).interruptible isCancelable).Spends
      conduct (IsAffordable count patience) state world := by
  induction count generalizing patience oldest newer state world with
  | zero =>
      rw [fetchAncestors, Routine.pure_eq_done, Routine.interruptible_done]
      exact .done (.free 0 patience _)
  | succ count induction =>
      exact spends_search fun parent left after later => induction left parent (oldest :: newer)

theorem spends_link (follower : Follower) (height steps patience : Nat) (oldest : Block)
    (newer : List Block) :
    ((follower.link height steps patience oldest newer).interruptible isCancelable).Spends conduct
      (IsAffordable steps patience) state world := by
  induction steps generalizing patience oldest newer state world with
  | zero =>
      rw [link, Routine.interruptible_fail]
      exact .fail ((IsAffordable.free 0 patience ()).endingIn trivial nofun)
  | succ steps induction =>
      refine spends_search fun parent left after later => ?_
      dsimp only
      cases Window.split? parent.parentHash follower.window.blocks with
      | some parts =>
          dsimp only
          rw [Routine.pure_eq_done, Routine.interruptible_done]
          exact .done (.free steps left _)
      | none => exact induction left parent (oldest :: newer)

theorem spends_resolve (follower : Follower) (candidate : Block) :
    ((follower.resolve candidate).interruptible isCancelable).Spends conduct
      (IsAffordable follower.backlog follower.backlog) state world := by
  have known : ∀ resolution : Resolution,
      ((Routine.done resolution).interruptible isCancelable).Spends conduct
        (IsAffordable follower.backlog follower.backlog) state world := by
    intro resolution
    rw [Routine.interruptible_done]
    exact .done (.free _ _ resolution)
  rw [resolve]
  split
  · exact known _
  · split
    · exact known _
    · split
      · rw [Routine.interruptible_bind]
        apply (spends_fetchAncestors _ _ _ candidate []).sequence
        · intro blocks efforts after later affordable
          rw [Routine.pure_eq_done, Routine.interruptible_done]
          apply Spends.done
          rw [List.append_nil]
          exact (affordable.mono (Nat.sub_le _ 1)).ofValue _
        · intro cause efforts affordable
          exact (affordable.mono (Nat.sub_le _ 1)).ofCause
        · exact fun _ _ affordable => affordable.ends.elim
      · exact spends_link follower _ _ _ candidate []

theorem spends_reconcile (follower : Follower) (candidate : Block) :
    ((reconcile candidate).interruptible isCancelable).Spends conduct
      (IsAffordable follower.backlog follower.backlog) follower world := by
  rw [reconcile, Routine.interruptible_bind, Routine.interruptible_get]
  apply Spends.get_andThen
  dsimp only [id]
  split
  · rw [Routine.pure_eq_done, Routine.interruptible_done]
    exact .done (.free _ _ none)
  · simp only [Routine.interruptible_bind, Routine.interruptible_ofExcept,
      Routine.interruptible_modify, Routine.pure_eq_done, Routine.interruptible_done]
    apply (spends_resolve follower candidate).sequence
    · intro resolution efforts after later affordable
      cases pushed : { follower.window with blocks := resolution.kept }.pushAll
          resolution.added with
      | error cause =>
          rcases Window.pushAll_eq_error pushed with ⟨expected, got, rfl⟩
          apply Spends.fail
          rw [List.append_nil]
          exact affordable.endingIn trivial nofun
      | ok window =>
          apply Spends.modify_andThen
          apply Spends.done
          rw [List.append_nil]
          exact affordable.ofValue _
    · intro cause efforts affordable
      exact affordable.ofCause
    · exact fun _ _ affordable => affordable.ends.elim

/-- A fill asks for the latest block, and then walks down from it. -/
theorem spends_fill (follower : Follower) :
    (fill.interruptible isCancelable).Spends conduct (fun outcome efforts =>
      ∃ reply? walk, efforts = .latest reply? :: walk ∧
        (outcome = .error (.blockNotFound "latest") ∧ reply? = some (.ok none) ∧ walk = [] ∨
          IsAffordable follower.backlog follower.backlog outcome walk)) follower world := by
  rw [fill, Routine.interruptible_bind, Routine.interruptible_get]
  apply Spends.get_andThen
  dsimp only [id]
  rw [Routine.interruptible_bind]
  apply (Routine.spends_node _).sequence
  · intro found efforts after later calls
    cases calls
    cases found with
    | none =>
        rw [Routine.interruptible_fail]
        exact .fail ⟨_, [], rfl, .inl ⟨rfl, rfl, rfl⟩⟩
    | some head =>
        have within : min follower.backlog (head.number + 1) - 1 ≤ follower.backlog := by omega
        simp only [Routine.interruptible_bind, Routine.interruptible_modify]
        apply (spends_fetchAncestors _ _ _ head []).sequence
        · intro chain walk after later affordable
          have affords := affordable.mono within
          apply Spends.modify_andThen
          cases refused : ({ follower.window with blocks := [] }.pushUntilError chain).2 with
          | none =>
              dsimp only
              rw [Routine.pure_eq_done, Routine.interruptible_done]
              refine Spends.done ⟨_, walk, by rw [List.append_nil]; rfl, .inr ?_⟩
              exact affords.ofValue _
          | some cause =>
              dsimp only
              rcases Window.pushUntilError_eq_some refused with ⟨expected, got, rfl⟩
              rw [Routine.interruptible_fail]
              refine Spends.fail ⟨_, walk, by rw [List.append_nil]; rfl, .inr ?_⟩
              exact affords.endingIn trivial nofun
        · intro cause walk affordable
          refine ⟨_, walk, rfl, .inr ?_⟩
          exact (affordable.mono within).ofCause
        · exact fun _ _ affordable => affordable.ends.elim
  · intro cause efforts calls
    cases calls with
    | failed error => exact ⟨_, [], rfl, .inr ((IsAffordable.free _ _ ()).endingIn trivial nofun)⟩
    | givenUp => exact ⟨_, [], rfl, .inr ((IsAffordable.free _ _ ()).endingIn trivial nofun)⟩
  · exact nofun

end

/-! ## What a call costs -/

/-- A call that ends, and that asks for parents and pauses so often at most. -/
structure IsBounded (limit : Nat) (outcome : Outcome α) (efforts : List Effort) : Prop where
  ends : outcome.HasReturned
  lookups : Effort.lookups efforts ≤ 2 * limit
  pauses : Effort.pauses efforts ≤ limit
  either : ∀ effort ∈ efforts, effort.isLookup ∨ effort.isPause

theorem IsAffordable.isBounded {limit : Nat} {outcome : Outcome α} {efforts : List Effort}
    (affordable : IsAffordable limit limit outcome efforts) : IsBounded limit outcome efforts where
  ends := affordable.ends
  lookups := by
    have lookups := affordable.lookups
    have pauses := affordable.pauses
    omega
  pauses := affordable.pauses
  either := affordable.either

/-- Whatever a node answers, and whatever the window holds, a reconciliation asks for a parent
at most twice for each block of the backlog and pauses at most once for each, and so does a
fill, behind one question for the latest block. What gives a parent up has paused for each
block of the backlog. -/
theorem walks_end_within_patience (surroundings : Surroundings Follower ω)
    (configured retryDelay : Nat) (capacity : Option Nat) (window : Window) (deltas : Feed Delta)
    (isCancelable : Bool) (world : ω) :
    let follower : Follower := { make configured retryDelay capacity with window, deltas }
    let limit := max configured 1
    (∀ candidate : Block,
      let ended := ((reconcile candidate).interruptible isCancelable).run surroundings.metering
        follower (world, [])
      IsBounded limit ended.1 ended.2.2.2 ∧
        ∀ hash, ended.1 = .error (.blockNotFound hash) →
          Effort.pauses ended.2.2.2 = limit) ∧
    (let ended := (fill.interruptible isCancelable).run surroundings.metering follower (world, [])
      ∃ reply? walk, ended.2.2.2 = .latest reply? :: walk ∧ IsBounded limit ended.1 walk ∧
        ∀ hash, ended.1 = .error (.blockNotFound hash) →
          hash = "latest" ∧ reply? = some (.ok none) ∧ walk = [] ∨
            Effort.pauses walk = limit) := by
  intro follower limit
  constructor
  · intro candidate ended
    have affordable : IsAffordable limit limit ended.1 ended.2.2.2 :=
      Spends.run (spends_reconcile follower candidate)
    exact ⟨affordable.isBounded, affordable.missing⟩
  · intro ended
    have spent : ∃ reply? walk, ended.2.2.2 = .latest reply? :: walk ∧
        (ended.1 = .error (.blockNotFound "latest") ∧ reply? = some (.ok none) ∧ walk = [] ∨
          IsAffordable limit limit ended.1 walk) := Spends.run (spends_fill follower)
    rcases spent with ⟨reply?, walk, efforts, ⟨failed, unknown, rfl⟩ | affordable⟩
    · have bounded : IsBounded limit ended.1 [] := by
        rw [failed]
        exact ⟨trivial, Nat.zero_le _, Nat.zero_le _, nofun⟩
      refine ⟨reply?, [], efforts, bounded, fun hash same => .inl ⟨?_, unknown, rfl⟩⟩
      rw [failed] at same
      cases same
      rfl
    · exact ⟨reply?, walk, efforts, affordable.isBounded, fun hash same =>
        .inr (affordable.missing hash same)⟩

/-- A node that serves each parent only when it is asked again. -/
def lateReply (time : Nat) : (call : Node.Call) → call.Reply
  | .blockByHash hash _ => .ok (if time % 3 = 0 then some ⟨1, hash, "unknown", 0⟩ else none)
  | _ => .error (.transport "")

/-- With such a node a walk costs all that it may. -/
example :
    let surroundings : Surroundings Follower Nat :=
      .calm (fun _ time => lateReply time) fun time _ => time + 1
    let ended := (reconcile (Fork.right 3)).run surroundings.metering
      { make 2 0 none with window := ⟨[Fork.left 1, Fork.left 2], 2⟩ } (0, [])
    Effort.lookups ended.2.2.2 = 2 * 2 ∧ Effort.pauses ended.2.2.2 = 2 := by
  decide +kernel

end Follower

end ReorgSync
