import ReorgSync.Proofs.Tree.Conduct

namespace ReorgSync

/-! A node that answers every call, and surroundings that never cancel. Given a
tree and a way in which its head moves, they are one schedule of many. -/

namespace BlockTree

/-! ## Trees from lists -/

/-- What makes a list of blocks a tree. -/
structure IsTree (blocks : List Block) (logs : String → List Log) : Prop where
  exists_parent : ∀ block ∈ blocks, block.number ≠ 0 →
    (blocks.find? (·.hash == block.parentHash)).any fun parent =>
      block.number == parent.number + 1
  no_parent : ∀ block ∈ blocks, block.number = 0 →
    blocks.find? (·.hash == block.parentHash) = none
  height_lt : ∀ block ∈ blocks, block.number + 1 < Word.size 64
  log_height : ∀ block ∈ blocks, ∀ log ∈ logs block.hash, log.blockNumber = block.number

instance (blocks : List Block) (logs : String → List Log) : Decidable (IsTree blocks logs) :=
  decidable_of_iff (_ ∧ _ ∧ _ ∧ _)
    ⟨fun ⟨exists_parent, no_parent, height_lt, log_height⟩ =>
      { exists_parent, no_parent, height_lt, log_height },
     fun tree => ⟨tree.exists_parent, tree.no_parent, tree.height_lt, tree.log_height⟩⟩

def ofBlocks (blocks : List Block) (logs : String → List Log) (isTree : IsTree blocks logs) :
    BlockTree where
  block? hash := blocks.find? (·.hash == hash)
  logs
  hash_eq found := by simpa using List.find?_some found
  exists_parent found above := by
    have parent := isTree.exists_parent _ (List.mem_of_find?_eq_some found) above
    rcases (Option.any_eq_true _ _).mp parent with ⟨parent, isParent, next⟩
    exact ⟨parent, isParent, by simpa using next⟩
  no_parent found zero := isTree.no_parent _ (List.mem_of_find?_eq_some found) zero
  height_lt found := isTree.height_lt _ (List.mem_of_find?_eq_some found)
  log_height found log member := by
    have hash := List.find?_some found
    rw [beq_iff_eq] at hash
    rw [← hash] at member
    exact isTree.log_height _ (List.mem_of_find?_eq_some found) log member

end BlockTree

/-! Two branches of three blocks behind a root, with one log in each block. -/

namespace Fork

def root : Block := ⟨0, "root", "", 0⟩
def left (height : Nat) : Block :=
  ⟨height, s!"left {height}", if height = 1 then "root" else s!"left {height - 1}", 0⟩
def right (height : Nat) : Block :=
  ⟨height, s!"right {height}", if height = 1 then "root" else s!"right {height - 1}", 0⟩

def blocks : List Block :=
  [root, left 1, left 2, left 3, right 1, right 2, right 3]

def logOf (block : Block) : Log where
  address := "contract"
  topics := []
  data := ""
  blockNumber := block.number
  blockHash := block.hash
  transactionHash := ""
  transactionIndex := 0

def logs (hash : String) : List Log :=
  (blocks.filter (·.hash == hash)).map logOf

def tree : BlockTree :=
  .ofBlocks blocks logs (by decide +kernel)

/-- A block of the one branch before a time, and one of the other from then on. -/
def switch (time : Nat) (before after : Block) (now : Nat) : Block :=
  if now < time then before else after

theorem contains_switch {time : Nat} {before after : Block} (containsBefore : tree.Contains before)
    (containsAfter : tree.Contains after) (now : Nat) :
    tree.Contains (switch time before after now) := by
  rw [switch]
  split
  · exact containsBefore
  · exact containsAfter

/-- A head that goes over to another branch moves as far as the two blocks are apart. -/
theorem shallow_switch {before after : Block} {backlog : Nat}
    (across : (Movement.shallow tree id backlog).moves before after) (time now : Nat) :
    (Movement.shallow tree (switch time before after) backlog).moves now (now + 1) := by
  have stay := fun block => (Movement.shallow tree id backlog).refl block
  show (Movement.shallow tree id backlog).moves (switch time before after now)
    (switch time before after (now + 1))
  rw [switch, switch]
  split <;> split
  · exact stay _
  · exact across
  · omega
  · exact stay _

end Fork

namespace BlockTree

/-! ## Replies -/

/-- What a node replies while a block is the head. It refuses ranges that are
wider than a limit, if it has one. -/
def reply (tree : BlockTree) (chainId : Nat) (limit : Option Nat) (refusal : String)
    (head : Block) : (call : Node.Call) → call.Reply
  | .height => .ok head.number
  | .blockByTag .latest => .ok (some head)
  | .blockByTag (.number height) => .ok (tree.path head)[height]?
  | .blockByHash hash _ => .ok (tree.block? hash)
  | .logs ⟨filter, .range first last⟩ =>
      if limit.any (· < last - first) then .error (.tooMuchData refusal)
      else .ok (tree.logsAlong filter ((tree.path head).filter fun block =>
        decide (first ≤ block.number ∧ block.number ≤ last)))
  | .logs ⟨filter, .blockHash hash⟩ => .ok ((tree.logs hash).filter filter.matchesLog)
  | .chainId => .ok chainId

theorem truthful_reply (tree : BlockTree) (chainId : Nat) (limit : Option Nat)
    (refusal : String) (head : Block) (call : Node.Call) :
    tree.Truthful head call (tree.reply chainId limit refusal head call) := by
  cases call with
  | height => exact rfl
  | blockByTag tag =>
      cases tag with
      | latest => exact fun block same => (Option.some.inj same).symm
      | number height => exact fun block found => found
  | blockByHash hash full => exact fun block found => found
  | logs query =>
      rcases query with ⟨filter, selector⟩
      cases selector with
      | range first last =>
          rw [reply]
          split
          · trivial
          · exact rfl
      | blockHash hash => exact rfl
  | chainId => trivial

end BlockTree

/-! ## Surroundings -/

/-- Surroundings in which a node replies, nothing is canceled and nothing happens
to the state. Each question moves the world. -/
def Surroundings.calm (reply : σ → ω → (call : Node.Call) → call.Reply) (next : ω → Query → ω) :
    Surroundings σ ω where
  answer query state world :=
    let later := next world query
    let answer : query.Answer :=
      match query with
      | .node call => reply state later call
      | .cancelableNode call => some (reply state later call)
      | .hint _ => some (.ok none)
      | .isCanceled => false
      | .pause _ => ()
      | .wait _ => false
      | .idle => false
      | .now => 0
      | .subscribe _ => some (.ok ())
      | .arrival => .closed
      | .acquire => ()
      | .acquireCancelable => false
      | .release => ()
    (answer, state, later)

/-- Calm surroundings with a truthful node behave like an honest one. -/
theorem Surroundings.calm_follows {tree : BlockTree} {headOf : ω → Block}
    {reply : σ → ω → (call : Node.Call) → call.Reply} {next : ω → Query → ω}
    {meanwhile : σ → ω → σ → ω → Prop}
    (truthful : ∀ state world call, tree.Truthful (headOf world) call (reply state world call))
    (contains : ∀ world, tree.Contains (headOf world))
    (small : ∀ state world query, meanwhile state world state (next world query)) :
    (Surroundings.calm reply next).Follows (tree.conduct headOf meanwhile) := by
  intro query state world answer after later answered
  rcases Prod.mk.inj answered with ⟨rfl, rest⟩
  rcases Prod.mk.inj rest with ⟨rfl, rfl⟩
  refine ⟨small state world query, contains _, ?_⟩
  cases query with
  | node call => exact truthful _ _ call
  | cancelableNode call => exact truthful _ _ call
  | _ => trivial

/-- Calm surroundings in which each question takes one unit of time, with a head
for each time. -/
def Surroundings.scripted (tree : BlockTree) (headAt : Nat → Block) : Surroundings σ Nat :=
  .calm (fun _ time => tree.reply 1 none "" (headAt time)) fun time _ => time + 1

theorem BlockTree.scripted_follows (tree : BlockTree) (movement : Movement Nat)
    (contains : ∀ time, tree.Contains (movement.headOf time))
    (small : ∀ time, movement.moves time (time + 1)) :
    (Surroundings.scripted tree movement.headOf).Follows
      (tree.conduct movement.headOf (movement.besideSession (ε := ε) tree)) :=
  Surroundings.calm_follows (fun _ _ => tree.truthful_reply 1 none "" _) contains
    fun session time _ => ⟨rfl, .refl tree session.follower, small time⟩

/-! ## Sessions -/

theorem Follower.isHonest_make (tree : BlockTree) (backlog retryDelay : Nat)
    (capacity : Option Nat) : (Follower.make backlog retryDelay capacity).IsHonest tree where
  window := BlockTree.isRun_nil
  deltas delta member := by
    cases capacity <;> cases member

/-- A new session over an entry that ends at a block. -/
def Session.endingAt (tree : BlockTree) (config : Config) (last : Block) : Session Entry where
  follower := .make config.maxBlockBacklog config.retryDelay none
  entry := {
    logs := tree.logsAlong config.filter (tree.path last)
    lastBlock := some last }

end ReorgSync
