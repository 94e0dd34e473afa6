import ReorgSync.Proofs.Routine.LogCalls
import ReorgSync.Proofs.Still

namespace ReorgSync

/-! Nodes may serve a block before its logs. The node of a chain that stands still fails here
in log queries of single blocks, as often and with whatever errors it likes, and in nothing
else. What does not ask for such logs does not notice that. -/

/-- For each block, by its hash, how its first log query fails, how its second does, and so
on. A query without an error is answered. -/
abbrev LogFaults : Type :=
  String → Nat → Option NodeError

/-- How a query goes on that was made so many times before. -/
def LogFaults.reply (faults : LogFaults) (asked : List String) (hash : String)
    (reply : Except NodeError (List Log)) : Except NodeError (List Log) :=
  match faults hash (asked.count hash) with
  | some error => .error error
  | none => reply

/-- An answer as it is with the faults, after the logs of some blocks were asked for. -/
def Query.faulty (faults : LogFaults) (asked : List String) :
    (query : Query) → query.Answer → query.Answer
  | .node (.logs ⟨_, .blockHash hash⟩), reply => faults.reply asked hash reply
  | .cancelableNode (.logs ⟨_, .blockHash hash⟩), reply? => reply?.map (faults.reply asked hash)
  | _, answer => answer

theorem Query.faulty_of_spared {query : Query} (spared : query.blockLogs = [])
    (faults : LogFaults) (asked : List String) (answer : query.Answer) :
    query.faulty faults asked answer = answer := by
  rcases query with ⟨_ | _ | _ | ⟨_, _ | _⟩ | _⟩ | ⟨_ | _ | _ | ⟨_, _ | _⟩ | _⟩ | _ <;>
    first | rfl | cases spared

namespace StillChain

/-- A node with faults. The world keeps the blocks whose logs were asked for. -/
def failing (chain : StillChain) (faults : LogFaults) : Surroundings σ (List String) where
  answer query state asked :=
    let (answer, after, _) := chain.surroundings.answer query state ()
    (query.faulty faults asked answer, after, asked ++ query.blockLogs)

/-- Work that asks for the logs of no single block does not notice the faults. -/
theorem run_failing (chain : StillChain) (faults : LogFaults) {routine : Routine σ α}
    (spares : routine.SparesLogs) (state : σ) (asked : List String) :
    routine.run (chain.failing faults) state asked =
      ((routine.run chain.surroundings state ()).1, (routine.run chain.surroundings state ()).2.1,
        asked) := by
  induction routine generalizing state asked with
  | done value => rfl
  | fail error => rfl
  | halted cause => rfl
  | read next induction => exact induction state (spares state) state asked
  | write changed next induction => exact induction spares changed asked
  | ask query next induction =>
      have answered : ((chain.failing faults).answer query state asked) =
          ((chain.surroundings.answer query state ()).1,
            (chain.surroundings.answer query state ()).2.1, asked) := by
        rw [failing]
        dsimp only
        rw [Query.faulty_of_spared spares.1, spares.1, List.append_nil]
      rw [Routine.run, answered]
      exact induction _ (spares.2 _) _ asked

end StillChain

/-! ## Work that notices no faults -/

open Routine (SparesLogs)

namespace Follower

theorem sparesLogs_fetchParent (retryDelay patience : Nat) (child : Block) :
    (fetchParent retryDelay child patience).SparesLogs := by
  induction patience with
  | zero =>
      refine (SparesLogs.node rfl).andThen fun parent? => ?_
      cases parent? <;> trivial
  | succ patience induction =>
      refine (SparesLogs.node rfl).andThen fun parent? => ?_
      cases parent? with
      | some parent => trivial
      | none => exact ⟨rfl, fun _ => induction⟩

theorem sparesLogs_fetchAncestors (retryDelay count patience : Nat) (oldest : Block)
    (newer : List Block) :
    (fetchAncestors retryDelay count patience oldest newer).SparesLogs := by
  induction count generalizing patience oldest newer with
  | zero => trivial
  | succ count induction =>
      exact (sparesLogs_fetchParent retryDelay patience oldest).andThen fun found =>
        induction found.2 found.1 (oldest :: newer)

theorem sparesLogs_link (follower : Follower) (height steps patience : Nat) (oldest : Block)
    (newer : List Block) : (follower.link height steps patience oldest newer).SparesLogs := by
  induction steps generalizing patience oldest newer with
  | zero => trivial
  | succ steps induction =>
      refine (sparesLogs_fetchParent _ patience oldest).andThen fun found => ?_
      dsimp only
      split
      · trivial
      · exact induction found.2 found.1 (oldest :: newer)

theorem sparesLogs_resolve (follower : Follower) (candidate : Block) :
    (follower.resolve candidate).SparesLogs := by
  rw [resolve]
  split
  · trivial
  · split
    · trivial
    · split
      · exact (sparesLogs_fetchAncestors _ _ _ candidate []).andThen fun _ => trivial
      · exact sparesLogs_link follower _ _ _ candidate []

theorem sparesLogs_reconcile (candidate : Block) : (reconcile candidate).SparesLogs := by
  refine (SparesLogs.get id).andThen fun follower => ?_
  split
  · trivial
  · refine (sparesLogs_resolve follower candidate).andThen fun resolution => ?_
    refine (SparesLogs.ofExcept _).andThen fun window => ?_
    exact (SparesLogs.modify _).andThen fun _ => trivial

theorem sparesLogs_fill : fill.SparesLogs := by
  refine (SparesLogs.get id).andThen fun follower => ?_
  refine (SparesLogs.node rfl).andThen fun head? => ?_
  cases head? with
  | none => trivial
  | some head =>
      refine (sparesLogs_fetchAncestors _ _ _ head []).andThen fun chain => ?_
      refine (SparesLogs.modify _).andThen fun _ => ?_
      dsimp only
      split <;> trivial

end Follower

namespace Session

variable {ε : Type}

theorem sparesLogs_call {call : Node.Call} (other : (Query.node call).blockLogs = []) :
    (Session.call call : Routine (Session ε) _).SparesLogs :=
  (SparesLogs.node other).guarded

theorem sparesLogs_blockOr (name : String) (found : Option Block) :
    (blockOr name found : Routine (Session ε) Block).SparesLogs := by
  cases found <;> trivial

theorem sparesLogs_inWindow (look : Window → α) :
    (inWindow look : Routine (Session ε) α).SparesLogs :=
  (SparesLogs.get _).exclusively

theorem sparesLogs_refreshHead : (refreshHead : Routine (Session ε) Block).SparesLogs := by
  have updated : ∀ {α : Type} {routine : Routine Follower α}, routine.SparesLogs →
      ((withFollower routine).guardedExclusively >>= fun _ => followedHead? >>= blockOr "latest" :
        Routine (Session ε) Block).SparesLogs := by
    intro α routine spares
    refine spares.zoom.guardedExclusively.andThen fun _ => ?_
    exact (sparesLogs_inWindow _).andThen fun _ => sparesLogs_blockOr _ _
  refine (sparesLogs_call rfl).andThen fun found => ?_
  refine (sparesLogs_blockOr _ found).andThen fun latest => ?_
  refine (SparesLogs.get _).andThen fun backlog => ?_
  refine (sparesLogs_inWindow _).andThen fun head? => ?_
  cases head? with
  | none => exact updated Follower.sparesLogs_fill
  | some head =>
      dsimp only
      split
      · exact updated Follower.sparesLogs_fill
      · exact updated (Follower.sparesLogs_reconcile latest)

theorem sparesLogs_descend (turns origin : Nat) (head : Block) :
    (descend turns origin head : Routine (Session ε) _).SparesLogs := by
  refine SparesLogs.iterate (fun run => ?_) turns (head, [])
  rw [descendStep]
  split
  · refine SparesLogs.checkCanceled.andThen fun _ => ?_
    refine SparesLogs.andThen ?_ fun _ => trivial
    refine (sparesLogs_inWindow _).andThen fun parent? => ?_
    cases parent? with
    | some parent => trivial
    | none => exact (sparesLogs_call rfl).andThen fun _ => sparesLogs_blockOr _ _
  · trivial

theorem sparesLogs_readEntry (read : ε → Except SyncError α) : (readEntry read).SparesLogs :=
  (SparesLogs.get _).andThen fun _ => SparesLogs.ofExcept _

variable [EntryStore ε]

theorem sparesLogs_baseOf (last : Block) (delta : Delta) :
    (baseOf last delta : Routine (Session ε) _).SparesLogs := by
  rw [baseOf]
  split
  · trivial
  · split
    · trivial
    · split
      · exact (sparesLogs_readEntry _).andThen fun _ => trivial
      · split <;> trivial

theorem sparesLogs_apply (event : Event) : (apply event : Routine (Session ε) Unit).SparesLogs := by
  refine SparesLogs.andThen ?_ fun _ => SparesLogs.modify _
  exact (sparesLogs_readEntry _).andThen fun _ => SparesLogs.modify _

end Session

/-! ## Queries that fail -/

/-- A query that is answered once it has failed so many times. -/
structure AnsweredAfter (failed : Nat) (faults : Nat → Option NodeError) : Prop where
  fails : ∀ count < failed, (faults count).isSome
  answers : faults failed = none

theorem AnsweredAfter.later {failed : Nat} {faults : Nat → Option NodeError} {asked : Nat}
    (answered : AnsweredAfter (failed + 1) fun count => faults (asked + count)) :
    AnsweredAfter failed fun count => faults (asked + 1 + count) where
  fails count below := by
    have earlier := answered.fails (count + 1) (Nat.succ_lt_succ below)
    rwa [Nat.add_comm count 1, ← Nat.add_assoc] at earlier
  answers := by
    have last := answered.answers
    rwa [Nat.add_comm failed 1, ← Nat.add_assoc] at last

namespace LogFaults

/-- How often a query fails until it is answered, if it is made so many times at most. -/
def failures (limit : Nat) (faults : Nat → Option NodeError) : Nat :=
  (List.range limit).findIdx fun count => (faults count).isNone

theorem answeredAfter_failures {limit : Nat} {faults : Nat → Option NodeError}
    (within : ∃ count < limit, faults count = none) :
    failures limit faults < limit ∧ AnsweredAfter (failures limit faults) faults := by
  rcases within with ⟨count, below, answers⟩
  have isFound : (List.range limit).findIdx (fun count => (faults count).isNone) <
      (List.range limit).length :=
    List.findIdx_lt_length_of_exists ⟨count, List.mem_range.mpr below, by rw [answers]; rfl⟩
  have lower : failures limit faults < limit := by rwa [List.length_range] at isFound
  refine ⟨lower, fun earlier before => ?_, ?_⟩
  · have notFound := List.not_of_lt_findIdx before
    rw [List.getElem_range, Option.isNone_eq_false_iff] at notFound
    exact notFound
  · have found := List.findIdx_getElem (w := isFound)
    rw [List.getElem_range, Option.isNone_iff_eq_none] at found
    exact found

/-- The queries for the logs of a block, if they are answered in the end. -/
def asks (limit : Nat) (faults : LogFaults) (hash : String) : List String :=
  List.replicate (failures limit (faults hash) + 1) hash

/-- Where nothing fails, each block is asked for once. -/
theorem asks_of_no_faults {limit : Nat} (positive : 0 < limit) (hash : String) :
    asks limit (fun _ _ => none) hash = [hash] := by
  have answered : AnsweredAfter (failures limit fun _ => none) fun _ => none :=
    (answeredAfter_failures ⟨0, positive, rfl⟩).2
  have atOnce : failures limit (fun _ => none) = 0 :=
    Nat.eq_zero_of_not_pos fun failed => absurd (answered.fails 0 failed) Bool.false_ne_true
  rw [asks, atOnce]
  rfl

section

variable {faults : LogFaults} {limit : Nat} {hashes : List String} {hash : String}

theorem mem_of_mem_flatMap_asks (isAsked : hash ∈ hashes.flatMap (faults.asks limit)) :
    hash ∈ hashes := by
  rcases List.mem_flatMap.mp isAsked with ⟨other, member, repeated⟩
  rw [List.eq_of_mem_replicate repeated]
  exact member

/-- Each block is asked for as often as its own queries say. -/
theorem count_flatMap_asks (distinct : hashes.Nodup) (member : hash ∈ hashes) :
    (hashes.flatMap (faults.asks limit)).count hash = failures limit (faults hash) + 1 := by
  induction hashes with
  | nil => cases member
  | cons other hashes induction =>
      rcases List.nodup_cons.mp distinct with ⟨absent, distinct⟩
      rw [List.flatMap_cons, List.count_append, asks, List.count_replicate]
      rcases List.mem_cons.mp member with rfl | member
      · have noMore : hash ∉ hashes.flatMap (faults.asks limit) :=
          fun isAsked => absent (mem_of_mem_flatMap_asks isAsked)
        rw [List.count_eq_zero_of_not_mem noMore, if_pos (beq_self_eq_true hash)]
      · have different : ¬ (other == hash) = true := fun same => absent (eq_of_beq same ▸ member)
        rw [if_neg different, Nat.zero_add]
        exact induction distinct member

/-- The first of some blocks that is not answered within the limit. -/
theorem exists_first_failing (member : hash ∈ hashes)
    (fails : ∀ count < limit, (faults hash count).isSome) :
    ∃ front first back, hashes = front ++ first :: back ∧
      (∀ count < limit, (faults first count).isSome) ∧
      ∀ other ∈ front, ∃ count < limit, faults other count = none := by
  induction hashes with
  | nil => cases member
  | cons other hashes induction =>
      by_cases failsToo : ∀ count < limit, (faults other count).isSome
      · exact ⟨[], other, hashes, rfl, failsToo, nofun⟩
      · have behind : hash ∈ hashes := by
          rcases List.mem_cons.mp member with rfl | behind
          · exact absurd fails failsToo
          · exact behind
        rcases induction behind with ⟨front, first, back, rfl, failsFirst, answered⟩
        refine ⟨other :: front, first, back, rfl, failsFirst, ?_⟩
        intro earlier before
        rcases List.mem_cons.mp before with rfl | before
        · by_contra unanswered
          refine failsToo fun count below => Option.isSome_iff_ne_none.mpr fun answers => ?_
          exact unanswered ⟨count, below, answers⟩
        · exact answered earlier before

end

end LogFaults

end ReorgSync
