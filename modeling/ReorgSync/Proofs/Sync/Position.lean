import ReorgSync.Proofs.Sync.Steps

namespace ReorgSync

/-! What becomes of a stored position while the chain stands still, whichever branch it is on:
the whole run is known from the nearest canonical ancestor of the last stored block. -/

namespace Session

open Routine

variable {chain : StillChain} {filter : Filter} {session : Session Entry}
  {last stored canonical block : Block} {height : Nat}

/-! ## Steps that cannot fail -/

theorem run_call {call : Node.Call} {value : call.Value} (replies : chain.reply call = .ok value) :
    (Session.call call).run chain.surroundings session () = (.value value, session, ()) := by
  have attains : (Session.call call).Attains chain.surroundings
      (fun found after _ => found = value ∧ after = session) session () :=
    attains_call replies ⟨rfl, rfl⟩
  rcases attains with ⟨_, _, _, run, rfl, rfl⟩
  exact run

theorem run_blockAt (found : chain.blocks[height]? = some block) :
    (blockAt height).run chain.surroundings session () = (.value block, session, ()) := by
  have replies : chain.reply (.blockByTag (.number height)) = .ok (some block) :=
    congrArg Except.ok found
  exact run_bind_of_value (run_call replies)

theorem run_blockWithHash {hash : String} (found : chain.tree.block? hash = some block) :
    (blockWithHash hash).run chain.surroundings session () = (.value block, session, ()) := by
  have replies : chain.reply (.blockByHash hash false) = .ok (some block) :=
    congrArg Except.ok found
  exact run_bind_of_value (run_call replies)

/-! ## The walk -/

/-- The walk ends where the branches meet, and fails if they do not within its steps. -/
theorem run_commonAncestor {backlog steps : Nat} (contains : chain.tree.Contains stored)
    (member : canonical ∈ chain.blocks) (level : stored.number = canonical.number) :
    (commonAncestor last backlog steps stored canonical).run chain.surroundings session () =
      match chain.tree.meeting? steps stored canonical with
      | some ancestor => (.value ancestor, session, ())
      | none => (.error (.reorgTooDeep last.number backlog), session, ()) := by
  induction steps generalizing stored canonical with
  | zero =>
      rw [commonAncestor, BlockTree.meeting?]
      split <;> rfl
  | succ steps induction =>
      rw [commonAncestor, BlockTree.meeting?]
      split
      case isTrue => rfl
      case isFalse =>
        split
        case isTrue => rfl
        case isFalse above =>
          have canonicalContains := BlockTree.contains_of_mem_path chain.contains member
          rcases BlockTree.exists_extends contains above with ⟨parent, contained, extending⟩
          rcases BlockTree.exists_extends canonicalContains (level ▸ above) with
            ⟨canonicalParent, canonicalContained, canonicalExtending⟩
          have heights := extending.1
          have canonicalHeights := canonicalExtending.1
          have isParent := BlockTree.block?_of_extends contained extending
          have isCanonicalParent :=
            BlockTree.block?_of_extends canonicalContained canonicalExtending
          have parentMember := BlockTree.parent_mem_path chain.contains member
            canonicalContained canonicalExtending
          rw [run_bind_of_value (run_blockWithHash isParent),
            run_bind_of_value (run_blockWithHash isCanonicalParent), isParent, isCanonicalParent]
          exact induction contained parentMember (by omega)

/-! ## Rolling back -/

/-- The entry is cut to the path of an ancestor, and that is published as one event. -/
def rolledBack (session : Session Entry) (tree : BlockTree) (filter : Filter) (ancestor : Block) :
    Session Entry :=
  let kept := tree.logsAlong filter (tree.path ancestor)
  let removed := session.entry.logs.filter fun log => decide (ancestor.number < log.blockNumber)
  { session with
    entry := { session.entry with logs := kept, lastBlock := some ancestor }
    events := session.events.publish
      { added := [], removed, truncateTo := some kept.length, block := ancestor } }

theorem attains_rollBack {ancestor : Block} (contains : chain.tree.Contains last)
    (logs : session.entry.logs = chain.tree.logsAlong filter (chain.tree.path last))
    (below : ancestor ∈ chain.tree.path last) :
    (do
      let above ← Routine.sum ancestor.number 1
      let (index, removed) ← readEntry (rollbackPoint above)
      apply { added := [], removed, truncateTo := some index, block := ancestor }
      return ancestor : Routine (Session Entry) Block).Attains chain.surroundings
        (fun found after _ => found = ancestor ∧
          after = session.rolledBack chain.tree filter ancestor) session () := by
  have path := BlockTree.path_of_mem_path contains below
  have removed : session.entry.logs.filter (fun log => decide (ancestor.number < log.blockNumber)) =
      chain.tree.logsAlong filter ((chain.tree.path last).drop (ancestor.number + 1)) := by
    rw [logs]
    exact BlockTree.filter_logsAlong_path contains (ancestor.number + 1)
  have cut := Entry.apply_cut [] (chain.tree.logsAlong filter
      ((chain.tree.path last).drop (ancestor.number + 1))) ancestor
    (logs.trans (chain.tree.logsAlong_take_append_drop _ (ancestor.number + 1) _).symm)
  rw [List.append_nil, ← path] at cut
  rw [Routine.sum_eq_done (chain.tree.height_lt (BlockTree.contains_of_mem_path contains below))]
  apply Attains.bind
  apply Attains.done
  apply Attains.bind
  apply attains_readEntry (rollbackPoint_of_matches (ancestor.number + 1) contains logs)
  rw [← path]
  apply Attains.bind
  apply attains_apply cut
  apply Attains.done
  refine ⟨rfl, ?_⟩
  rw [rolledBack, removed]

/-- The last stored block is answered if it is canonical, and its nearest canonical ancestor
is if that is within the backlog. Only then is anything changed. -/
theorem run_reconcilePosition (ends : session.entry.lastBlock = some last)
    (entryMatches : session.entry.Matches chain.tree filter) :
    (reconcilePosition last).run chain.surroundings session () =
      if chain.head.number < last.number then
        (.error (.storeAheadOfHead last.number chain.head.number), session, ())
      else
        match chain.tree.nearest? chain.blocks last with
        | none => (.error (.reorgTooDeep last.number session.follower.backlog), session, ())
        | some ancestor =>
            let depth := ((chain.tree.path last).drop (ancestor.number + 1)).length
            if depth = 0 then (.value last, session, ())
            else if depth ≤ session.follower.backlog then
              (.value ancestor, session.rolledBack chain.tree filter ancestor, ())
            else (.error (.reorgTooDeep last.number session.follower.backlog), session, ()) := by
  rcases (Entry.matches_of_lastBlock ends).mp entryMatches with ⟨contains, logs⟩
  have height : chain.reply .height = .ok chain.head.number := rfl
  rw [reconcilePosition, run_bind_of_value (run_call height)]
  split
  case isTrue => rfl
  case isFalse below =>
    rcases StillChain.exists_block (Nat.le_of_not_lt below) with ⟨canonical, found⟩
    have member := List.mem_of_getElem? found
    have level := StillChain.number_of_getElem? found
    rw [run_bind_of_value (run_blockAt found)]
    split
    case isTrue same =>
      have isLast := BlockTree.eq_of_hash_eq (StillChain.contains_of_getElem? found) contains same
      rw [isLast] at member
      rw [BlockTree.nearest?_of_mem contains member]
      dsimp only
      rw [BlockTree.length_drop_path contains, if_pos (Nat.sub_self _)]
      rfl
    case isFalse differs =>
      have read : (backlog : Routine (Session Entry) Nat).run chain.surroundings session () =
          (.value session.follower.backlog, session, ()) := rfl
      have walked := @run_commonAncestor chain session last last canonical
        session.follower.backlog session.follower.backlog contains member level.symm
      rw [BlockTree.meeting?_eq contains chain.contains member level.symm] at walked
      rw [run_bind_of_value read, StillChain.blocks]
      cases nearest : chain.tree.nearest? (chain.tree.path chain.head) last with
      | none =>
          rw [nearest, Option.filter_none] at walked
          rw [run_bind_of_error (congrArg Prod.fst walked), walked]
      | some ancestor =>
          rcases BlockTree.nearest?_eq_some contains nearest with ⟨below, onChain, -⟩
          have isDeep := BlockTree.number_lt_of_parted contains chain.contains member level
            (fun same => differs (congrArg Block.hash same)) below onChain
          rw [nearest, Option.filter_some] at walked
          dsimp only
          rw [BlockTree.length_drop_path contains, if_neg (by omega)]
          by_cases near : last.number ≤ ancestor.number + session.follower.backlog
          · rw [if_pos (decide_eq_true near)] at walked
            rw [if_pos (by omega), run_bind_of_value walked]
            rcases attains_rollBack contains logs below with ⟨_, _, _, run, rfl, rfl⟩
            exact run
          · rw [if_neg (by simpa using near)] at walked
            rw [if_neg (by omega), run_bind_of_error (congrArg Prod.fst walked), walked]

/-- Two blocks are rolled back, three are too many for the backlog, a canonical block stays, and
no block is above the head. -/
theorem run_reconcilePosition_at_fork :
    let chain : StillChain := {
      tree := Fork.tree
      head := Fork.right 2
      contains := by decide +kernel
      chainId := 1
      limit := none
      refusal := "" }
    let longer : StillChain := { chain with head := Fork.right 3, contains := by decide +kernel }
    let session := Session.endingAt Fork.tree { maxBlockBacklog := 2 }
    let rolled := (session (Fork.left 2)).rolledBack Fork.tree {} Fork.root
    (reconcilePosition (Fork.left 2)).run chain.surroundings (session (Fork.left 2)) () =
      (.value Fork.root, rolled, ()) ∧
    rolled.entry.logs = [Fork.logOf Fork.root] ∧
    rolled.events.recent =
      [⟨[], [Fork.logOf (Fork.left 1), Fork.logOf (Fork.left 2)], some 1, Fork.root⟩] ∧
    (reconcilePosition (Fork.left 3)).run longer.surroundings (session (Fork.left 3)) () =
      (.error (.reorgTooDeep 3 2), session (Fork.left 3), ()) ∧
    (reconcilePosition (Fork.right 1)).run chain.surroundings (session (Fork.right 1)) () =
      (.value (Fork.right 1), session (Fork.right 1), ()) ∧
    (reconcilePosition (Fork.left 3)).run chain.surroundings (session (Fork.left 3)) () =
      (.error (.storeAheadOfHead 3 2), session (Fork.left 3), ()) := by
  intro chain longer session rolled
  have entryMatches {last : Block} (contains : Fork.tree.Contains last) :
      (session last).entry.Matches Fork.tree {} :=
    (Entry.matches_of_lastBlock rfl).mpr ⟨contains, rfl⟩
  have rolls := @run_reconcilePosition chain {} (session (Fork.left 2)) (Fork.left 2) rfl
    (entryMatches (by decide +kernel))
  have tooDeep := @run_reconcilePosition longer {} (session (Fork.left 3)) (Fork.left 3) rfl
    (entryMatches (by decide +kernel))
  have stays := @run_reconcilePosition chain {} (session (Fork.right 1)) (Fork.right 1) rfl
    (entryMatches (by decide +kernel))
  have ahead := @run_reconcilePosition chain {} (session (Fork.left 3)) (Fork.left 3) rfl
    (entryMatches (by decide +kernel))
  have ofLeft : chain.tree.nearest? chain.blocks (Fork.left 2) = some Fork.root := by
    decide +kernel
  have ofLonger : longer.tree.nearest? longer.blocks (Fork.left 3) = some Fork.root := by
    decide +kernel
  have ofRight : chain.tree.nearest? chain.blocks (Fork.right 1) = some (Fork.right 1) := by
    decide +kernel
  rw [if_neg (by decide +kernel), ofLeft] at rolls
  rw [if_neg (by decide +kernel), ofLonger] at tooDeep
  rw [if_neg (by decide +kernel), ofRight] at stays
  rw [if_pos (by decide +kernel)] at ahead
  dsimp only at rolls tooDeep stays
  rw [if_neg (by decide +kernel), if_pos (by decide +kernel)] at rolls
  rw [if_neg (by decide +kernel), if_neg (by decide +kernel)] at tooDeep
  rw [if_pos (by decide +kernel)] at stays
  exact ⟨rolls, by decide +kernel, by decide +kernel, tooDeep, stays, ahead⟩

end Session

end ReorgSync
