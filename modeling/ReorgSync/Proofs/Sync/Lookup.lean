import ReorgSync.Proofs.Sync.Completion
import ReorgSync.Proofs.Sync.Tries
import ReorgSync.Proofs.Window

namespace ReorgSync

/-! What a session finds out about a chain that stands still, whether or not its node
may fail. -/

open Routine (Tries Seeks)

variable {chain : StillChain} {mayFail : Prop}

/-! ## The follower -/

namespace Follower

variable {follower : Follower} {retryDelay patience count height : Nat}

/-- Where a follower of the chain may be: it has seen nothing yet, or it is at the head. -/
structure IsAt (follower : Follower) (chain : StillChain) (backlog : Nat) : Prop where
  backlog_eq : follower.backlog = backlog
  onChain : ∀ block ∈ follower.window.blocks, block ∈ chain.blocks
  head : follower.window.blocks = [] ∨ follower.window.head? = some chain.head

theorem seeks_fetchParent {child parent : Block}
    (found : chain.tree.block? child.parentHash = some parent) :
    (fetchParent retryDelay child patience).Seeks chain mayFail (·.1 = parent) follower := by
  have replies : chain.reply (.blockByHash child.parentHash false) = .ok (some parent) :=
    congrArg Except.ok found
  cases patience with
  | zero =>
      apply Seeks.andThen_finds (Seeks.node replies)
      exact Seeks.done rfl
  | succ patience =>
      apply Seeks.andThen_finds (Seeks.node replies)
      exact Seeks.done rfl

theorem seeks_fetchAncestors {oldest : Block} {newer : List Block}
    (run : oldest :: newer = chain.blocks.drop (height + count)) :
    (fetchAncestors retryDelay count patience oldest newer).Seeks chain mayFail
      (· = chain.blocks.drop height) follower := by
  induction count generalizing oldest newer patience with
  | zero => exact Seeks.done run
  | succ count induction =>
      have found := StillChain.getElem?_of_eq_drop run
      have within := BlockTree.number_le_of_mem_path chain.contains (List.mem_of_getElem? found)
      rw [StillChain.number_of_getElem? found] at within
      rcases StillChain.exists_block (Nat.le_of_succ_le within) with ⟨parent, below⟩
      apply Seeks.andThen (seeks_fetchParent (StillChain.block?_parent found below))
      intro result isParent
      apply induction
      rw [isParent, run]
      exact (StillChain.drop_eq_cons below).symm

/-- A window is filled with blocks of the chain up to its head. -/
theorem tries_fill {invariant : Follower → Prop} (holds : invariant follower)
    (filled : ∀ window : Window, window.head? = some chain.head →
      (∀ block ∈ window.blocks, block ∈ chain.blocks) → invariant { follower with window }) :
    fill.Tries chain mayFail invariant (fun _ after => after.window.head? = some chain.head)
      follower := by
  have whole : [chain.head] = chain.blocks.drop (chain.head.number -
      (min follower.backlog (chain.head.number + 1) - 1) +
        (min follower.backlog (chain.head.number + 1) - 1)) := by
    rw [Nat.sub_add_cancel (by omega), StillChain.drop_head]
  apply Tries.get_andThen
  apply Tries.after_finds holds
    (Seeks.node (show chain.reply (.blockByTag .latest) = .ok (some chain.head) from rfl))
  apply Tries.after_finds holds (seeks_fetchAncestors whole)
  generalize isHeight : chain.head.number -
    (min follower.backlog (chain.head.number + 1) - 1) = height
  simp only [id]
  generalize isEmptied : (⟨[], follower.window.capacity⟩ : Window) = emptied
  have empty : emptied.blocks = [] := by rw [← isEmptied]
  have linked : Block.Linked (emptied.blocks ++ chain.blocks.drop height) := by
    rw [empty]
    exact (StillChain.drop_isRun height).1
  rcases Window.pushUntilError_of_linked linked with ⟨noError, isHead⟩
  have members := (Window.pushUntilError_spec emptied (chain.blocks.drop height)
    (by rw [empty]; trivial)).2
  rw [empty, List.nil_append, StillChain.getLast?_drop (by omega)] at isHead
  rw [empty] at members
  have holdsThen := filled _ isHead fun block member =>
    List.mem_of_mem_drop ((members block member).resolve_left List.not_mem_nil)
  apply Tries.modify_andThen holdsThen
  rw [noError]
  exact Tries.done holdsThen isHead

/-- The head says nothing new to a follower that has seen it. -/
theorem seeks_reconcile_head (known : chain.head ∈ follower.window.blocks) :
    (reconcile chain.head).Seeks chain mayFail (fun _ => True) follower := by
  have stale : follower.isStale chain.head = true := by
    rw [isStale, Bool.or_eq_true]
    left
    rw [Window.find?, List.find?_isSome]
    exact ⟨chain.head, List.mem_reverse.mpr known, beq_self_eq_true _⟩
  apply Tries.get_andThen
  simp only [id, stale, if_true]
  exact Seeks.done trivial

end Follower

namespace Session

variable {session : Session Entry} {height : Nat} {block : Block}

/-! ## Single calls -/

theorem seeks_call {call : Node.Call} {value : call.Value}
    (replies : chain.reply call = .ok value) :
    (Session.call call).Seeks chain mayFail (· = value) session :=
  Tries.guarded rfl (Seeks.node replies)

/-- A call whose error is looked at. -/
theorem seeks_reply {call : Node.Call} :
    (Routine.ask (.cancelableNode call) .done : Routine (Session Entry) _).guarded.Seeks chain
      mayFail (chain.Allows mayFail (.cancelableNode call)) session :=
  Tries.guarded rfl (Tries.ask fun _ allowed => Seeks.done allowed)

theorem seeks_blockOr {name : String} {found : Option Block} (missing : found = none → mayFail) :
    (blockOr name found).Seeks chain mayFail (found = some ·) session := by
  cases found with
  | none => exact Seeks.fail (missing rfl)
  | some block => exact Seeks.done rfl

theorem seeks_blockAt (missing : chain.blocks[height]? = none → mayFail) :
    (blockAt height).Seeks chain mayFail (chain.blocks[height]? = some ·) session := by
  have replies : chain.reply (.blockByTag (.number height)) = .ok chain.blocks[height]? := rfl
  apply Seeks.andThen_finds (seeks_call replies)
  exact seeks_blockOr missing

theorem seeks_blockWithHash {hash : String} (missing : chain.tree.block? hash = none → mayFail) :
    (blockWithHash hash).Seeks chain mayFail (chain.tree.block? hash = some ·) session := by
  have replies : chain.reply (.blockByHash hash false) = .ok (chain.tree.block? hash) := rfl
  apply Seeks.andThen_finds (seeks_call replies)
  exact seeks_blockOr missing

theorem seeks_inWindow (look : Window → α) :
    (inWindow look).Seeks chain mayFail (· = look session.follower.window) session :=
  Tries.exclusively (Tries.get_andThen (Seeks.done rfl))

theorem seeks_readEntry {read : Entry → Except SyncError α}
    (fails : ∀ error, read session.entry = .error error → mayFail) :
    (readEntry read).Seeks chain mayFail (read session.entry = .ok ·) session :=
  Tries.get_andThen (Tries.ofExcept rfl (fun _ succeeds => succeeds) fails)

/-! ## Walks -/

theorem seeks_commonAncestor {last stored canonical : Block} {backlog steps : Nat}
    (missing : chain.tree.meeting? steps stored canonical = none → mayFail) :
    (commonAncestor last backlog steps stored canonical).Seeks chain mayFail
      (chain.tree.meeting? steps stored canonical = some ·) session := by
  induction steps generalizing stored canonical with
  | zero =>
      rw [commonAncestor]
      split
      case isTrue same => exact Seeks.done (if_pos same)
      case isFalse differs => exact Seeks.fail (missing (if_neg differs))
  | succ steps induction =>
      rw [BlockTree.meeting?] at missing ⊢
      rw [commonAncestor]
      split
      case isTrue same => exact Seeks.done rfl
      case isFalse differs =>
        rw [if_neg differs] at missing
        split
        case isTrue zero => exact Seeks.fail (missing (if_pos zero))
        case isFalse above =>
          rw [if_neg above] at missing
          apply Seeks.andThen (seeks_blockWithHash fun absent => missing (by rw [absent]; rfl))
          intro storedParent found
          rw [found] at missing ⊢
          apply Seeks.andThen (seeks_blockWithHash fun absent => missing (by rw [absent]; rfl))
          intro canonicalParent foundThen
          rw [foundThen] at missing ⊢
          exact induction missing

theorem seeks_parentOf {parent : Block}
    (onChain : ∀ block ∈ session.follower.window.blocks, block ∈ chain.blocks)
    (found : chain.blocks[height + 1]? = some block) (below : chain.blocks[height]? = some parent) :
    (parentOf block).Seeks chain mayFail (· = parent) session := by
  have isParent := StillChain.block?_parent found below
  apply Seeks.andThen_finds (seeks_inWindow _)
  cases inWindow : session.follower.window.find? block.parentHash with
  | none =>
      refine (seeks_blockWithHash fun absent => ?_).mono fun other _ _ isOther => ?_
      · rw [isParent] at absent
        contradiction
      · rw [isParent] at isOther
        exact (Option.some.inj isOther).symm
  | some other =>
      rcases Window.find?_eq_some inWindow with ⟨member, hash⟩
      have contains := BlockTree.contains_of_mem_path chain.contains (onChain other member)
      rw [BlockTree.Contains, hash, isParent] at contains
      exact Seeks.done (Option.some.inj contains).symm

theorem seeks_descend {turns origin : Nat}
    (onChain : ∀ block ∈ session.follower.window.blocks, block ∈ chain.blocks)
    (below : origin ≤ chain.head.number) (enough : mayFail ∨ chain.head.number < turns) :
    (descend turns origin chain.head).Seeks chain mayFail
      (fun run => run.1 :: run.2 = chain.blocks.drop origin) session := by
  apply Seeks.iterate (fun run => origin ≤ run.1.number ∧
      run.1 :: run.2 = chain.blocks.drop run.1.number) (fun run => run.1.number) _ enough
  · exact ⟨below, StillChain.drop_head.symm⟩
  · intro run holds
    rcases holds with ⟨above, isDropped⟩
    rw [descendStep]
    split
    case isTrue higher =>
      rcases Nat.exists_eq_succ_of_ne_zero (Nat.ne_zero_of_lt higher) with ⟨height, isHeight⟩
      have found := StillChain.getElem?_of_eq_drop isDropped
      rw [isHeight] at found
      have within := BlockTree.number_le_of_mem_path chain.contains (List.mem_of_getElem? found)
      have isThere : height ≤ chain.head.number := by omega
      rcases StillChain.exists_block isThere with ⟨parent, isBelow⟩
      apply Seeks.andThen Tries.checkCanceled
      intro _ _
      apply Seeks.andThen_finds (seeks_parentOf onChain found isBelow)
      apply Seeks.done
      dsimp only
      rw [StillChain.number_of_getElem? isBelow, StillChain.drop_eq_cons isBelow, isDropped,
        isHeight]
      exact ⟨⟨by omega, rfl⟩, by omega⟩
    case isFalse lowest =>
      have same : run.1.number = origin := by omega
      rw [same] at isDropped
      exact Seeks.done isDropped

/-! ## Logs -/

theorem seeks_retryLogs {query : LogQuery} {logs : List Log} {delay attempts : Nat}
    (replies : chain.reply (.logs query) = .ok logs) :
    (retryLogs query delay attempts).Seeks chain mayFail (· = logs) session := by
  induction attempts with
  | zero => exact seeks_call replies
  | succ attempts induction =>
      apply Seeks.andThen seeks_reply
      intro reply allowed
      rcases reply with _ | error | found
      · exact Seeks.fail allowed
      · exact Seeks.andThen Tries.sleep fun _ _ => induction
      · rcases allowed with same | ⟨-, error, isError⟩
        · rw [replies] at same
          exact Seeks.done (Except.ok.inj same)
        · nomatch isError

theorem seeks_logsOfBlocks (config : Config) (blocks : List Block) :
    (logsOfBlocks config blocks).Seeks chain mayFail
      (· = chain.tree.logsAlong config.filter blocks) session := by
  induction blocks with
  | nil => exact Seeks.done rfl
  | cons block rest induction =>
      have replies : chain.reply (.logs ⟨config.filter, .blockHash block.hash⟩) =
        .ok (chain.tree.logsOf config.filter block) := rfl
      apply Seeks.andThen_finds (seeks_retryLogs replies)
      apply Seeks.andThen_finds induction
      exact Seeks.done rfl

/-- The logs of a range are those of the chain, and a range that is refused is too wide. -/
theorem seeks_rangeLogs (filter : Filter) (first final : Nat) :
    (Routine.ask (.cancelableNode (.logs ⟨filter, .range first final⟩)) .done :
        Routine (Session Entry) _).guarded.Seeks chain mayFail (fun
      | none => mayFail
      | some (.ok logs) => logs = chain.tree.logsAlong filter (chain.blocks.filter fun block =>
          decide (first ≤ block.number ∧ block.number ≤ final))
      | some (.error error) => mayFail ∨
          error.isTooMuchData ∧ chain.limit.any (· < final - first)) session := by
  have reply : chain.reply (.logs ⟨filter, .range first final⟩) =
      if chain.limit.any (· < final - first) then .error (.tooMuchData chain.refusal)
      else .ok (chain.tree.logsAlong filter (chain.blocks.filter fun block =>
        decide (first ≤ block.number ∧ block.number ≤ final))) := rfl
  refine seeks_reply.mono fun answer _ _ allowed => ?_
  rcases answer with _ | error | logs
  · exact allowed
  · rcases allowed with same | ⟨fails, -⟩
    · rw [reply] at same
      split at same
      case isTrue refused =>
        cases same
        exact .inr ⟨rfl, refused⟩
      case isFalse => contradiction
    · exact .inl fails
  · rcases allowed with same | ⟨-, error, isError⟩
    · rw [reply] at same
      split at same
      case isTrue => contradiction
      case isFalse => exact Except.ok.inj same
    · nomatch isError

/-! ## The head -/

/-- A session comes to know the head. Only a follower that has seen nothing changes for
that. -/
theorem tries_refreshHead {backlog : Nat} {invariant : Session Entry → Prop}
    (isAt : session.follower.IsAt chain backlog) (holds : invariant session)
    (filled : session.follower.window.blocks = [] → ∀ window : Window,
      window.head? = some chain.head → (∀ block ∈ window.blocks, block ∈ chain.blocks) →
        invariant { session with follower := { session.follower with window } }) :
    refreshHead.Tries chain mayFail invariant (fun head after => head = chain.head ∧
      after.entry = session.entry ∧ after.follower.window.head? = some chain.head) session := by
  have answers : ∀ after : Session Entry, invariant after → after.entry = session.entry →
      after.follower.window.head? = some chain.head →
        (followedHead? >>= blockOr "latest" : Routine (Session Entry) Block).Tries chain mayFail
          invariant (fun head after => head = chain.head ∧ after.entry = session.entry ∧
            after.follower.window.head? = some chain.head) after := by
    intro after holdsThen entry isHead
    apply Tries.after_finds holdsThen (seeks_inWindow Window.head?)
    rw [isHead]
    exact Tries.done holdsThen ⟨rfl, entry, isHead⟩
  have replies : chain.reply (.blockByTag .latest) = .ok (some chain.head) := rfl
  apply Tries.after_finds holds (seeks_call replies)
  apply Tries.get_andThen
  apply Tries.after_finds holds (seeks_inWindow Window.head?)
  rcases isAt.head with empty | isHead
  · have nothing : session.follower.window.head? = none := by
      rw [Window.head?, empty]
      rfl
    rw [nothing]
    have fills : (withFollower Follower.fill : Routine (Session Entry) Unit).Tries chain mayFail
        invariant (fun _ after => after.entry = session.entry ∧
          after.follower.window.head? = some chain.head) session := by
      apply Tries.withFollower
      exact (Follower.tries_fill holds (filled empty)).mono fun _ _ _ isHead => ⟨rfl, isHead⟩
    apply Tries.andThen (Tries.guardedExclusively holds fills)
    intro _ after holdsThen isMet
    exact answers after holdsThen isMet.1 isMet.2
  · have known := Window.mem_of_head? isHead
    rw [isHead]
    have near : ¬ chain.head.number + session.follower.backlog < chain.head.number := by omega
    simp only [near, decide_false]
    have reconciles : (withFollower (Follower.reconcile chain.head) :
        Routine (Session Entry) (Option Delta)).Seeks chain mayFail (fun _ => True) session := by
      apply Tries.withFollower
      exact (Follower.seeks_reconcile_head known).mono_invariant fun _ same => by rw [same]
    apply Tries.after_seeks holds (Tries.guardedExclusively rfl reconciles)
    intro _ _
    exact answers session holds rfl isHead

end Session

end ReorgSync
