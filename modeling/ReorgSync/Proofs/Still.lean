import ReorgSync.Proofs.Tree.Node

namespace ReorgSync

/-! A chain that stands still, behind a node that always answers. It also serves
blocks that are not canonical, and it refuses the ranges that are too wide for
it. -/

structure StillChain where
  tree : BlockTree
  head : Block
  contains : tree.Contains head
  chainId : Nat
  /-- By how much the ends of a range may differ; `none` for any. -/
  limit : Option Nat
  refusal : String

namespace StillChain

/-- The canonical blocks. -/
def blocks (chain : StillChain) : List Block :=
  chain.tree.path chain.head

def reply (chain : StillChain) : (call : Node.Call) → call.Reply :=
  chain.tree.reply chain.chainId chain.limit chain.refusal chain.head

def surroundings (chain : StillChain) : Surroundings σ Unit :=
  .calm (fun _ _ => chain.reply) fun _ _ => ()

theorem length_blocks (chain : StillChain) : chain.blocks.length = chain.head.number + 1 :=
  BlockTree.length_path chain.contains

/-- The block at height zero. -/
def genesis (chain : StillChain) : Block :=
  chain.blocks.get ⟨0, by rw [length_blocks]; omega⟩

def identity (chain : StillChain) : ChainIdentity where
  chainId := chain.chainId
  genesisHash := chain.genesis.hash

/-- What is stored once everything below a height is. -/
def entryBelow (chain : StillChain) (filter : Filter) (origin : Nat) : Entry where
  logs := chain.tree.logsAlong filter (chain.blocks.take origin)
  lastBlock := (chain.blocks.take origin).getLast?
  identity := some chain.identity

/-- Entries that can be brought up to the chain: new ones, and those that left it not
too far back. -/
structure CanResume (chain : StillChain) (config : Config) (entry : Entry) : Prop where
  entryMatches : entry.Matches chain.tree config.filter
  identity_eq : ∀ recorded, entry.identity = some recorded → recorded = chain.identity
  number_le : ∀ last, entry.lastBlock = some last → last.number ≤ chain.head.number
  leaves : ∀ last, entry.lastBlock = some last → ∃ ancestor ∈ chain.tree.path last,
    ancestor ∈ chain.blocks ∧ last.number ≤ ancestor.number + config.maxBlockBacklog

/-- A session whose entry holds what lies below a height. -/
structure StoredBelow (chain : StillChain) (filter : Filter) (follower : Follower)
    (origin : Nat) (last : Option Block) (session : Session Entry) : Prop where
  entry_eq : session.entry = chain.entryBelow filter origin
  last_eq : last = (chain.blocks.take origin).getLast?
  origin_le : origin ≤ chain.head.number + 1
  follower_eq : session.follower = follower

variable {chain : StillChain} {filter : Filter} {block parent : Block} {height origin : Nat}

theorem StoredBelow.origin_lt {follower : Follower} {last : Option Block} {session : Session Entry}
    (stored : chain.StoredBelow filter follower origin last session) : origin < Word.size 64 :=
  Nat.lt_of_le_of_lt stored.origin_le (chain.tree.height_lt chain.contains)

theorem getElem?_genesis : chain.blocks[0]? = some chain.genesis :=
  List.getElem?_eq_getElem _

theorem exists_block (within : height ≤ chain.head.number) :
    ∃ block, chain.blocks[height]? = some block :=
  BlockTree.exists_getElem?_path chain.contains within

theorem number_of_getElem? (found : chain.blocks[height]? = some block) :
    block.number = height :=
  (BlockTree.path_of_getElem? chain.contains found).2.1

theorem contains_of_getElem? (found : chain.blocks[height]? = some block) :
    chain.tree.Contains block :=
  (BlockTree.path_of_getElem? chain.contains found).1

/-- Neighbours on the chain are parent and child. -/
theorem block?_parent (found : chain.blocks[height + 1]? = some block)
    (below : chain.blocks[height]? = some parent) :
    chain.tree.block? block.parentHash = some parent := by
  have contains := contains_of_getElem? found
  have number := number_of_getElem? found
  rcases BlockTree.exists_extends contains (by omega) with ⟨other, contained, extending⟩
  have member := BlockTree.parent_mem_path chain.contains (List.mem_of_getElem? found)
    contained extending
  have otherFound := (BlockTree.mem_path_iff chain.contains).mp member
  have otherNumber : other.number = height := by
    have next := extending.1
    omega
  rw [otherNumber] at otherFound
  have same : some other = some parent := otherFound.symm.trans below
  cases same
  exact BlockTree.block?_of_extends contained extending

theorem drop_eq_cons (found : chain.blocks[height]? = some block) :
    chain.blocks.drop height = block :: chain.blocks.drop (height + 1) := by
  rcases List.getElem?_eq_some_iff.mp found with ⟨within, same⟩
  rw [List.drop_eq_getElem_cons within, same]

theorem getElem?_of_eq_drop {newer : List Block} (run : block :: newer = chain.blocks.drop height) :
    chain.blocks[height]? = some block := by
  rw [← List.head?_drop, ← run, List.head?_cons]

theorem drop_head : chain.blocks.drop chain.head.number = [chain.head] := by
  rw [drop_eq_cons (BlockTree.getElem?_path_number chain.contains),
    List.drop_of_length_le (Nat.le_of_eq (length_blocks chain))]

/-- The newest blocks of the chain are a run that ends at its head. -/
theorem drop_isRun (height : Nat) : chain.tree.IsRun (chain.blocks.drop height) := by
  have isRun := BlockTree.isRun_path chain.contains
  rw [← List.take_append_drop height (chain.tree.path chain.head)] at isRun
  exact isRun.right

theorem getLast?_drop (below : height ≤ chain.head.number) :
    (chain.blocks.drop height).getLast? = some chain.head := by
  rw [List.getLast?_drop, length_blocks, if_neg (by omega)]
  exact BlockTree.getLast?_path chain.contains

theorem getLast?_take_succ (found : chain.blocks[height]? = some block) :
    (chain.blocks.take (height + 1)).getLast? = some block := by
  rw [List.getLast?_take, if_neg (Nat.succ_ne_zero height), Nat.add_sub_cancel, found]
  rfl

/-- What lies below the height behind a canonical block lies on its path. -/
theorem entryBelow_succ (member : block ∈ chain.blocks) :
    chain.entryBelow filter (block.number + 1) =
      { logs := chain.tree.logsAlong filter (chain.tree.path block)
        lastBlock := some block
        identity := some chain.identity } := by
  have found := (BlockTree.mem_path_iff chain.contains).mp member
  rw [entryBelow, getLast?_take_succ found, BlockTree.path_of_mem_path chain.contains member]
  rfl

theorem entryBelow_append_range {final : Nat} (ordered : origin ≤ final)
    (found : chain.blocks[final]? = some block) :
    { chain.entryBelow filter origin with
      logs := (chain.entryBelow filter origin).logs ++ chain.tree.logsAlong filter
        (chain.blocks.filter fun block => decide (origin ≤ block.number ∧ block.number ≤ final))
      lastBlock := some block } = chain.entryBelow filter (final + 1) := by
  rw [entryBelow, entryBelow, getLast?_take_succ found, ← BlockTree.logsAlong_append]
  rw [blocks, BlockTree.take_append_range chain.contains ordered]

theorem entryBelow_append_drop (origin : Nat) :
    { chain.entryBelow filter origin with
      logs := (chain.entryBelow filter origin).logs ++
        chain.tree.logsAlong filter (chain.blocks.drop origin)
      lastBlock := some chain.head } = chain.entryBelow filter (chain.head.number + 1) := by
  rw [entryBelow_succ (BlockTree.self_mem_path chain.contains), entryBelow,
    chain.tree.logsAlong_take_append_drop]
  rfl

/-- The block behind a height extends the block below it. -/
theorem extends_of_split {last first : Block}
    (isLast : (chain.blocks.take height).getLast? = some last)
    (isFirst : (chain.blocks.drop height).head? = some first) : first.Extends last := by
  have linked := (BlockTree.isRun_path chain.contains).1
  rw [← List.take_append_drop height (chain.tree.path chain.head)] at linked
  exact (Block.linked_append.mp linked).2.2 last isLast first isFirst

end StillChain

end ReorgSync
