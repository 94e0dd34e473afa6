import ReorgSync.Proofs.Still

namespace ReorgSync

/-! What a synchronisation makes of an entry while the chain stands still, as a function
of the entry: it is cut to where it left the chain, and what lies behind that on the
chain is added. The entry need not match the chain. What is stored on the way has the
same completion, so it does not matter where a synchronisation is cut off. -/

namespace BlockTree

variable {tree : BlockTree} {stored canonical anchor last : Block} {steps : Nat}

/-- Where two branches meet, going back on both one block at a time. -/
def meeting? (tree : BlockTree) : (steps : Nat) → (stored canonical : Block) → Option Block
  | 0, stored, canonical => if stored.hash = canonical.hash then some canonical else none
  | steps + 1, stored, canonical =>
      if stored.hash = canonical.hash then some canonical
      else if stored.number = 0 then none
      else do
        let stored ← tree.block? stored.parentHash
        let canonical ← tree.block? canonical.parentHash
        tree.meeting? steps stored canonical

/-- Branches of one height meet at the nearest ancestor that the first has on the second, if
it is within so many steps. -/
theorem meeting?_eq (contains : tree.Contains stored) (containsLast : tree.Contains last)
    (member : canonical ∈ tree.path last) (level : stored.number = canonical.number) :
    tree.meeting? steps stored canonical =
      (tree.nearest? (tree.path last) stored).filter fun base =>
        decide (stored.number ≤ base.number + steps) := by
  induction steps generalizing stored canonical with
  | zero =>
      have canonicalContains := contains_of_mem_path containsLast member
      rw [meeting?]
      split
      case isTrue same =>
        cases eq_of_hash_eq contains canonicalContains same
        rw [nearest?_of_mem contains member, Option.filter_some,
          if_pos (decide_eq_true (Nat.le_add_right _ _))]
      case isFalse differs =>
        rw [eq_comm, Option.filter_eq_none_iff]
        intro base isBase near
        rcases nearest?_eq_some contains isBase with ⟨below, onLast, -⟩
        have le := number_le_of_mem_path contains below
        have ge := of_decide_eq_true near
        have isStored := eq_of_mem_path contains below (self_mem_path contains) (by omega)
        have isCanonical := eq_of_mem_path containsLast onLast member (by omega)
        exact differs (by rw [← isStored, ← isCanonical])
  | succ steps induction =>
      have canonicalContains := contains_of_mem_path containsLast member
      rw [meeting?]
      split
      case isTrue same =>
        cases eq_of_hash_eq contains canonicalContains same
        rw [nearest?_of_mem contains member, Option.filter_some,
          if_pos (decide_eq_true (Nat.le_add_right _ _))]
      case isFalse differs =>
        have apart : stored ∉ tree.path last := fun isOnLast =>
          differs (congrArg Block.hash (eq_of_mem_path containsLast isOnLast member level))
        split
        case isTrue isRoot =>
          rw [nearest?_eq_none_iff.mpr, Option.filter_none]
          rw [path_of_zero isRoot]
          simpa using apart
        case isFalse above =>
          rcases exists_extends contains above with ⟨parent, contained, extending⟩
          rcases exists_extends canonicalContains (level ▸ above) with
            ⟨canonicalParent, canonicalContained, canonicalExtending⟩
          have heights := extending.1
          have canonicalHeights := canonicalExtending.1
          have parentMember := parent_mem_path containsLast member canonicalContained
            canonicalExtending
          have further := induction contained parentMember (by omega)
          have sameReach : (fun base : Block => decide (stored.number ≤ base.number + (steps + 1))) =
              fun base => decide (parent.number ≤ base.number + steps) := by
            funext base
            rw [heights, ← Nat.add_assoc, decide_eq_decide]
            exact Nat.succ_le_succ_iff
          rw [block?_of_extends contained extending,
            block?_of_extends canonicalContained canonicalExtending,
            nearest?_of_extends contained extending apart, sameReach]
          exact further

/-- Branches of one height that have a common block within so many steps meet. -/
theorem exists_meeting? (contains : tree.Contains stored) (containsLast : tree.Contains last)
    (member : canonical ∈ tree.path last) (level : stored.number = canonical.number)
    (onStored : anchor ∈ tree.path stored) (onLast : anchor ∈ tree.path last)
    (near : stored.number ≤ anchor.number + steps) :
    ∃ found, tree.meeting? steps stored canonical = some found ∧ found ∈ tree.path stored := by
  rw [meeting?_eq contains containsLast member level]
  cases nearest : tree.nearest? (tree.path last) stored with
  | none => exact absurd onLast (nearest?_eq_none_iff.mp nearest anchor onStored)
  | some base =>
      rcases nearest?_eq_some contains nearest with ⟨below, -, newest⟩
      have above := newest anchor onStored onLast
      refine ⟨base, ?_, below⟩
      rw [Option.filter_some, if_pos (decide_eq_true (by omega))]

/-- Branches meet on the second of them. -/
theorem mem_path_of_meeting? (contains : tree.Contains last) (member : canonical ∈ tree.path last)
    (meets : tree.meeting? steps stored canonical = some anchor) : anchor ∈ tree.path last := by
  induction steps generalizing stored canonical with
  | zero =>
      rw [meeting?] at meets
      split at meets
      case isTrue =>
        cases meets
        exact member
      case isFalse => contradiction
  | succ steps induction =>
      rw [meeting?] at meets
      split at meets
      case isTrue =>
        cases meets
        exact member
      case isFalse =>
        split at meets
        case isTrue => contradiction
        case isFalse =>
          rcases Option.bind_eq_some_iff.mp meets with ⟨storedParent, -, meets⟩
          rcases Option.bind_eq_some_iff.mp meets with ⟨parent, found, meets⟩
          have extending := extends_of_block? (contains_of_mem_path contains member) found
          exact induction (parent_mem_path contains member (contains_of_block? found) extending)
            meets

end BlockTree

namespace Entry

/-- The entry behind which nothing of another branch is stored any more. -/
def cutBehind (anchor : Block) (entry : Entry) : Except SyncError Entry := do
  let (index, removed) ← Session.rollbackPoint (anchor.number + 1) entry
  entry.apply { added := [], removed, truncateTo := some index, block := anchor }

end Entry

namespace StillChain

variable {chain : StillChain} {config : Config} {filter : Filter} {entry : Entry}
  {block last : Block} {origin height : Nat}

/-! ## Where an entry stands -/

/-- Where to go on with an entry, and what of it is kept; nothing if it cannot be brought
up to the chain. -/
def standing? (chain : StillChain) (config : Config) (entry : Entry) : Option (Nat × Entry) :=
  match entry.lastBlock with
  | none =>
      let start := config.startBlock.getD 0
      if chain.head.number < start then none else some (start, entry)
  | some last => do
      let canonical ← chain.blocks[last.number]?
      if canonical.hash = last.hash then return (last.number + 1, entry)
      else
        let anchor ← chain.tree.meeting? (max config.maxBlockBacklog 1) last canonical
        let kept ← (entry.cutBehind anchor).toOption
        return (anchor.number + 1, kept)

/-- Entries of which everything is kept: new ones, and those that end on the chain. -/
def StandsAt (chain : StillChain) (config : Config) (entry : Entry) (origin : Nat) : Prop :=
  match entry.lastBlock with
  | none => origin = config.startBlock.getD 0 ∧ origin ≤ chain.head.number
  | some last => origin = last.number + 1 ∧
      ∃ canonical, chain.blocks[last.number]? = some canonical ∧ canonical.hash = last.hash

theorem standsAt_start (empty : entry.lastBlock = none)
    (within : config.startBlock.getD 0 ≤ chain.head.number) :
    chain.StandsAt config entry (config.startBlock.getD 0) := by
  rw [StandsAt, empty]
  exact ⟨rfl, within⟩

theorem standsAt_behind {canonical : Block} (ends : entry.lastBlock = some last)
    (found : chain.blocks[last.number]? = some canonical) (same : canonical.hash = last.hash) :
    chain.StandsAt config entry (last.number + 1) := by
  rw [StandsAt, ends]
  exact ⟨rfl, canonical, found, same⟩

theorem standsAt_behind_block (ends : entry.lastBlock = some block)
    (found : chain.blocks[height]? = some block) : chain.StandsAt config entry (height + 1) := by
  have number := number_of_getElem? found
  rw [← number]
  rw [← number] at found
  exact standsAt_behind ends found rfl

namespace StandsAt

theorem within (stands : chain.StandsAt config entry origin) (empty : entry.lastBlock = none) :
    origin = config.startBlock.getD 0 ∧ origin ≤ chain.head.number := by
  rw [StandsAt, empty] at stands
  exact stands

theorem behind (stands : chain.StandsAt config entry origin)
    (ends : entry.lastBlock = some last) :
    origin = last.number + 1 ∧
      ∃ canonical, chain.blocks[last.number]? = some canonical ∧ canonical.hash = last.hash := by
  rw [StandsAt, ends] at stands
  exact stands

/-- There is room among the heights behind a block of the chain. -/
theorem origin_lt (stands : chain.StandsAt config entry origin)
    (ends : entry.lastBlock = some last) : origin < Word.size 64 := by
  rcases stands.behind ends with ⟨rfl, canonical, found, -⟩
  have number := number_of_getElem? found
  rw [← number]
  exact chain.tree.height_lt (contains_of_getElem? found)

theorem standing?_eq (stands : chain.StandsAt config entry origin) :
    chain.standing? config entry = some (origin, entry) := by
  rw [standing?]
  cases ends : entry.lastBlock with
  | none =>
      rcases stands.within ends with ⟨rfl, within⟩
      exact if_neg (Nat.not_lt.mpr within)
  | some last =>
      rcases stands.behind ends with ⟨rfl, canonical, found, same⟩
      simp [found, same]

end StandsAt

/-! ## What is added -/

/-- The entry with everything that is on the chain from a height on. -/
def filled (chain : StillChain) (filter : Filter) (origin : Nat) (entry : Entry) : Entry :=
  { entry with
    logs := entry.logs ++ chain.tree.logsAlong filter (chain.blocks.drop origin)
    lastBlock := if origin ≤ chain.head.number then some chain.head else entry.lastBlock }

theorem filled_of_head_lt (above : chain.head.number < origin) :
    chain.filled filter origin entry = entry := by
  have nothing : chain.blocks.drop origin = [] := by
    rw [List.drop_eq_nil_iff, length_blocks]
    exact above
  rw [filled, nothing, BlockTree.logsAlong_nil, List.append_nil, if_neg (Nat.not_le.mpr above)]

/-- To add a range is to go on behind it. -/
theorem filled_append_range {final : Nat} (ordered : origin ≤ final)
    (found : chain.blocks[final]? = some block) :
    chain.filled filter (final + 1)
      { entry with
        logs := entry.logs ++ chain.tree.logsAlong filter
          (chain.blocks.filter fun block =>
            decide (origin ≤ block.number ∧ block.number ≤ final))
        lastBlock := some block } = chain.filled filter origin entry := by
  have below := BlockTree.number_le_of_mem_path chain.contains (List.mem_of_getElem? found)
  rw [number_of_getElem? found] at below
  have split : chain.blocks.filter (fun block =>
        decide (origin ≤ block.number ∧ block.number ≤ final)) ++ chain.blocks.drop (final + 1) =
      chain.blocks.drop origin := by
    have whole := List.take_append_drop (final + 1) chain.blocks
    rw [blocks, ← BlockTree.take_append_range chain.contains ordered, List.append_assoc] at whole
    exact List.append_cancel_left (whole.trans (List.take_append_drop origin chain.blocks).symm)
  have ends : (if final + 1 ≤ chain.head.number then some chain.head else some block) =
      some chain.head := by
    split
    case isTrue => rfl
    case isFalse whole =>
      have isHead : final = chain.head.number := by omega
      rw [isHead] at found
      exact found.symm.trans (BlockTree.getElem?_path_number chain.contains)
  rw [filled, filled, ends, if_pos (Nat.le_trans ordered below), List.append_assoc,
    ← BlockTree.logsAlong_append, split]

/-! ## The completion -/

/-- What a synchronisation makes of an entry, if it can make anything of it. -/
def completion? (chain : StillChain) (config : Config) (entry : Entry) : Option Entry :=
  if entry.identity.all (· == chain.identity) then
    (chain.standing? config { entry with identity := some chain.identity }).map
      fun (origin, kept) => chain.filled config.filter origin kept
  else none

theorem completion?_of_identity_ne {recorded : ChainIdentity}
    (known : entry.identity = some recorded) (differs : recorded ≠ chain.identity) :
    chain.completion? config entry = none := by
  simp [completion?, known, differs]

theorem completion?_record (unknown : entry.identity = none) :
    chain.completion? config { entry with identity := some chain.identity } =
      chain.completion? config entry := by
  simp [completion?, unknown]

theorem completion?_of_identity (known : entry.identity = some chain.identity) :
    chain.completion? config entry =
      (chain.standing? config entry).map
        fun (origin, kept) => chain.filled config.filter origin kept := by
  have same : { entry with identity := some chain.identity } = entry := by
    rw [← known]
  simp [completion?, known, same]

theorem StandsAt.completion?_eq (stands : chain.StandsAt config entry origin)
    (known : entry.identity = some chain.identity) :
    chain.completion? config entry = some (chain.filled config.filter origin entry) := by
  rw [completion?_of_identity known, stands.standing?_eq]
  rfl

/-- Entries that a synchronisation leaves as they are. -/
structure IsComplete (chain : StillChain) (entry : Entry) : Prop where
  known : entry.identity = some chain.identity
  ends : ∃ last, entry.lastBlock = some last ∧ last.number = chain.head.number ∧
    last.hash = chain.head.hash

theorem IsComplete.completion?_eq (complete : chain.IsComplete entry) :
    chain.completion? config entry = some entry := by
  rcases complete.ends with ⟨last, ends, number, hash⟩
  have found : chain.blocks[last.number]? = some chain.head := by
    rw [number]
    exact BlockTree.getElem?_path_number chain.contains
  rw [(standsAt_behind ends found hash.symm).completion?_eq complete.known,
    filled_of_head_lt (by omega)]

/-- A complete entry is not on another branch. -/
theorem IsComplete.hash_eq {canonical : Block} (complete : chain.IsComplete entry)
    (ends : entry.lastBlock = some last) (found : chain.blocks[last.number]? = some canonical) :
    canonical.hash = last.hash := by
  rcases complete.ends with ⟨_, endsThen, number, hash⟩
  cases ends.symm.trans endsThen
  have isHead := BlockTree.getElem?_path_number chain.contains
  rw [← number] at isHead
  cases found.symm.trans isHead
  exact hash.symm

theorem StandsAt.isComplete (stands : chain.StandsAt config entry origin)
    (known : entry.identity = some chain.identity) (ends : entry.lastBlock = some last)
    (above : chain.head.number < origin) : chain.IsComplete entry := by
  rcases stands.behind ends with ⟨isOrigin, canonical, found, same⟩
  have below := BlockTree.number_le_of_mem_path chain.contains (List.mem_of_getElem? found)
  rw [number_of_getElem? found] at below
  have number : last.number = chain.head.number := by omega
  have isHead := BlockTree.getElem?_path_number chain.contains
  rw [← number] at isHead
  cases found.symm.trans isHead
  exact ⟨known, last, ends, number, same.symm⟩

theorem StandsAt.not_isComplete (stands : chain.StandsAt config entry origin)
    (below : origin ≤ chain.head.number) : ¬ chain.IsComplete entry := by
  intro complete
  rcases complete.ends with ⟨last, ends, number, -⟩
  have isOrigin := (stands.behind ends).1
  omega

end StillChain

end ReorgSync
