import ReorgSync.Proofs.Block
import ReorgSync.Proofs.Sync.Tiling

namespace ReorgSync

/-! A hot zone goes down from its head, one parent after the other, and takes each block for
the parent that it was asked as. Nothing is checked on the way. So what is stored is a run of
blocks exactly if each answer was the parent, and the walk is bounded as long as the answers
lead down. -/

/-- A parent was looked up, for a block above the height that is to be reached. -/
structure Lookup where
  child : Block
  /-- What was found for the parent hash of the child. -/
  parent : Block
  /-- The window had it, and the node was not asked. -/
  isHeld : Bool

namespace Lookup

def exchanges (lookup : Lookup) : List Exchange :=
  if lookup.isHeld then [] else [.blockOf lookup.child.parentHash lookup.parent]

/-- A lookup for the oldest block that was fetched. The window knows blocks by their hashes,
a node may answer anything. -/
structure IsMade (origin : Nat) (oldest : Block) (lookup : Lookup) : Prop where
  child : lookup.child = oldest
  above : origin < oldest.number
  held : lookup.isHeld = true → lookup.parent.hash = oldest.parentHash

theorem unranged_exchanges (lookups : List Lookup) : Unranged (lookups.flatMap exchanges) := by
  intro exchange member
  rcases List.mem_flatMap.mp member with ⟨lookup, -, member⟩
  rw [exchanges] at member
  split at member
  · cases member
  · rw [List.mem_singleton.mp member]
    exact id

end Lookup

/-- The lookups that lead from a head down to the oldest block of a run. -/
inductive Descends (origin : Nat) (head : Block) : List Lookup → Block × List Block → Prop
  | starts : Descends origin head [] (head, [])
  | goesOn {lookups : List Lookup} {run : Block × List Block} {lookup : Lookup}
      (descends : Descends origin head lookups run) (made : lookup.IsMade origin run.1) :
      Descends origin head (lookups ++ [lookup]) (lookup.parent, run.1 :: run.2)

namespace Descends

variable {origin : Nat} {head : Block} {lookups : List Lookup} {run : Block × List Block}

theorem getLast_eq (descends : Descends origin head lookups run) :
    (run.1 :: run.2).getLast (List.cons_ne_nil _ _) = head := by
  induction descends with
  | starts => rfl
  | goesOn _ _ induction => rw [List.getLast_cons (List.cons_ne_nil _ _), induction]

/-- The blocks are a run exactly if each answer is the parent of its child. -/
theorem linked_iff (descends : Descends origin head lookups run) :
    Block.Linked (run.1 :: run.2) ↔ ∀ lookup ∈ lookups, lookup.child.Extends lookup.parent := by
  induction descends with
  | starts => exact ⟨fun _ _ member => (List.not_mem_nil member).elim, fun _ => trivial⟩
  | goesOn _ made induction =>
      rw [Block.Linked, induction, List.forall_mem_append, List.forall_mem_singleton, made.child,
        and_comm]

/-- Where each answer is below its child, every lookup brings the walk down. -/
theorem length_le (descends : Descends origin head lookups run)
    (falling : ∀ lookup ∈ lookups, lookup.parent.number < lookup.child.number) :
    lookups.length + run.1.number ≤ head.number := by
  induction descends with
  | starts => exact Nat.le_of_eq (Nat.zero_add _)
  | @goesOn lookups run lookup descends made induction =>
      have earlier := induction fun other member => falling other (List.mem_append_left _ member)
      have lower : lookup.parent.number < run.1.number := by
        rw [← made.child]
        exact falling lookup (by simp)
      rw [List.length_append, List.length_singleton]
      show lookups.length + 1 + lookup.parent.number ≤ head.number
      omega

/-- Lookups are made above the origin only, so there are no more of them than heights. -/
theorem length_le_sub (descends : Descends origin head lookups run)
    (falling : ∀ lookup ∈ lookups, lookup.parent.number < lookup.child.number) :
    lookups.length ≤ head.number - origin ∧
      (origin < run.1.number → lookups.length < head.number - origin) := by
  have lowered := descends.length_le falling
  refine ⟨?_, fun above => by omega⟩
  cases descends with
  | starts => exact Nat.zero_le _
  | @goesOn lookups run lookup descends made =>
      have earlier := descends.length_le fun other member =>
        falling other (List.mem_append_left _ member)
      have above := made.above
      rw [List.length_append, List.length_singleton]
      omega

/-- A linked run does not overshoot: the block behind its oldest one is above the origin, and
only one higher. -/
theorem number_eq (descends : Descends origin head lookups run)
    (linked : Block.Linked (run.1 :: run.2)) (reaches : run.1.number ≤ origin)
    (within : origin ≤ head.number) : run.1.number = origin := by
  cases descends with
  | starts => exact Nat.le_antisymm reaches within
  | @goesOn lookups run lookup descends made =>
      have next : run.1.number = lookup.parent.number + 1 := linked.1.1
      have above := made.above
      change lookup.parent.number ≤ origin at reaches
      change lookup.parent.number = origin
      omega

end Descends

/-- What a hot zone stores: the logs that were answered for the blocks of a run. Its oldest
block is not above the origin and names the stored block as its parent, if there is one. -/
structure Fetched (config : Config) (origin : Nat) (last? : Option Block) (head : Block)
    (lookups : List Lookup) (run : Block × List Block) (heard : List Exchange)
    (parts : List (List Log)) : Prop where
  descends : Descends origin head lookups run
  within : origin ≤ head.number
  reaches : run.1.number ≤ origin
  connects : ∀ last ∈ last?, run.1.parentHash = last.hash
  answered : List.Forall₂ (fun block part => .logsOf config.filter block.hash part ∈ heard)
    (run.1 :: run.2) parts

theorem Fetched.contiguous_iff {config : Config} {origin : Nat} {last? : Option Block}
    {head : Block} {lookups : List Lookup} {run : Block × List Block} {heard : List Exchange}
    {parts : List (List Log)}
    (fetched : Fetched config origin last? head lookups run heard parts) :
    Block.Linked (run.1 :: run.2) ∧ run.1.number = origin ↔
      ∀ lookup ∈ lookups, lookup.child.Extends lookup.parent := by
  rw [← fetched.descends.linked_iff]
  refine ⟨And.left, fun linked => ⟨linked, ?_⟩⟩
  exact fetched.descends.number_eq linked fetched.reaches fetched.within

namespace Session

open Routine (Keeps Turns)

variable {ε ω : Type} [EntryStore ε] [FaithfulStore ε] {transcript : ω → List Exchange}
  {session : Session ε} {world : ω} {config : Config} {origin : Nat} {last? : Option Block}

/-! ## The way down -/

theorem asks_parentOf (block : Block) :
    Asks transcript (fun parent heard => ∃ isHeld : Bool,
      (isHeld = true → parent.hash = block.parentHash) ∧
        heard = Lookup.exchanges ⟨block, parent, isHeld⟩) (parentOf block) session world := by
  have byHash : Asks transcript (fun found heard =>
      (∀ parent ∈ found, parent.hash = block.parentHash) ∧ heard = [])
      (inWindow (·.find? block.parentHash)) session world :=
    asks_inWindow fun _ _ isFound => (Window.find?_eq_some isFound).2
  apply byHash.andThen
  · intro found heard holds
    rw [holds.2]
    exact unranged_nil
  · intro found now late heard holds
    rw [holds.2]
    cases found with
    | some parent => exact asks_done ⟨true, fun _ => holds.1 parent rfl, rfl⟩
    | none =>
        apply (asks_blockWithHash block.parentHash).weaken
        · intro parent after later found
          rcases found with ⟨heard, since, said⟩
          exact ⟨heard, since, false, nofun, said⟩
        · exact fun _ _ holds => holds

/-- Each turn either looks a parent up or ends the walk. -/
theorem asks_descendStep (origin : Nat) (run : Block × List Block) :
    Asks transcript (fun turn heard =>
      match turn with
      | .inl next => ∃ lookup : Lookup, lookup.IsMade origin run.1 ∧
          next = (lookup.parent, run.1 :: run.2) ∧ heard = lookup.exchanges
      | .inr reached => reached = run ∧ run.1.number ≤ origin ∧ heard = [])
      (descendStep origin run) session world := by
  rw [descendStep]
  split
  case isTrue above =>
    apply asks_checkCanceled.andThen
    · intro _ heard none
      rw [none]
      exact unranged_nil
    · intro _ now late heard none
      rw [none]
      apply (asks_parentOf run.1).andThen
      · intro parent heard holds
        rcases holds with ⟨isHeld, -, rfl⟩
        have unranged := Lookup.unranged_exchanges [⟨run.1, parent, isHeld⟩]
        rw [List.flatMap_singleton] at unranged
        exact unranged
      · intro parent now late heard holds
        rcases holds with ⟨isHeld, held, rfl⟩
        apply asks_done
        rw [List.append_nil]
        exact ⟨⟨run.1, parent, isHeld⟩, ⟨rfl, above, held⟩, rfl, rfl⟩
  case isFalse arrived => exact asks_done ⟨rfl, Nat.le_of_not_lt arrived, rfl⟩

theorem Since.lookup {now after : Session ε} {late later : ω} {lookups : List Lookup}
    {lookup : Lookup}
    (since : Since transcript session world (lookups.flatMap Lookup.exchanges) [] now late)
    (sinceThen : Since transcript now late lookup.exchanges [] after later) :
    Since transcript session world ((lookups ++ [lookup]).flatMap Lookup.exchanges) [] after
      later := by
  rw [List.flatMap_append, List.flatMap_singleton]
  exact since.wait sinceThen

theorem asks_descend (turns origin : Nat) (head : Block) :
    Asks transcript (fun run heard => ∃ lookups, Descends origin head lookups run ∧
      run.1.number ≤ origin ∧ heard = lookups.flatMap Lookup.exchanges)
      (descend turns origin head) session world := by
  apply Keeps.iterate fun run after later => ∃ lookups, Descends origin head lookups run ∧
    Since transcript session world (lookups.flatMap Lookup.exchanges) [] after later
  · intro run now late holds
    rcases holds with ⟨lookups, descends, since⟩
    apply (asks_descendStep origin run).weaken
    · intro turn after later found
      rcases found with ⟨heard, sinceThen, found⟩
      cases turn with
      | inl next =>
          rcases found with ⟨lookup, made, rfl, rfl⟩
          exact ⟨lookups ++ [lookup], descends.goesOn made, since.lookup sinceThen⟩
      | inr reached =>
          rcases found with ⟨rfl, reaches, rfl⟩
          have sinceStart := since.wait sinceThen
          rw [List.append_nil] at sinceStart
          exact ⟨_, sinceStart, lookups, descends, reaches, rfl⟩
    · intro after later stops
      rcases stops with ⟨heard, sinceThen, unranged⟩
      exact ⟨_, since.wait sinceThen, (Lookup.unranged_exchanges lookups).append unranged⟩
  · intro run after later holds
    rcases holds with ⟨lookups, -, since⟩
    exact ⟨_, since, Lookup.unranged_exchanges lookups⟩
  · exact ⟨[], .starts, since_start⟩

/-- Each turn of the walk is one lookup. -/
theorem descends_of_turns {head : Block} {count : Nat}
    {now : Standing (Session ε) ω (Block × List Block)}
    (taken : Turns (Conduct.transcribed transcript) (descendStep origin)
      ⟨(head, []), session, world⟩ count now) :
    ∃ lookups, Descends origin head lookups now.place ∧ lookups.length = count ∧
      Since transcript session world (lookups.flatMap Lookup.exchanges) [] now.state now.world := by
  induction taken with
  | none => exact ⟨[], .starts, rfl, since_start⟩
  | @more count now next _ turn induction =>
      rcases induction with ⟨lookups, descends, counted, since⟩
      rcases (asks_descendStep origin now.place).ends turn with ⟨heard, sinceThen, lookup, made,
        isNext, rfl⟩
      refine ⟨lookups ++ [lookup], ?_, ?_, since.lookup sinceThen⟩
      · rw [isNext]
        exact descends.goesOn made
      · rw [List.length_append, List.length_singleton, counted]

/-! ## What is stored -/

instance : (Conduct.transcribed (ε := ε) transcript).Within besideLedger where
  asked accepted := ⟨accepted.1.ledger, accepted.1.published⟩

theorem Since.besideLedger {after : Session ε} {later : ω} {heard : List Exchange}
    (since : Since transcript session world heard [] after later) :
    Session.besideLedger session world after later :=
  ⟨since.ledger, since.published⟩

/-- A hot zone stores nothing, or what it has fetched since its head was found. -/
inductive Fetches (config : Config) (transcript : ω → List Exchange) (origin : Nat)
    (last? : Option Block) (session : Session ε) (world : ω) (outcome : Outcome (Option Block))
    (after : Session ε) (later : ω) : Prop
  | nothing (unchanged : besideLedger session world after later)
  | stored {head : Block} {begun : Session ε} {early : ω} {lookups : List Lookup}
      {run : Block × List Block} {heard : List Exchange} {parts : List (List Log)}
      (follows : refreshHead.Ends (Conduct.transcribed transcript) session world (.value head)
        begun early)
      (unchanged : besideLedger session world begun early)
      (since : Since transcript begun early (lookups.flatMap Lookup.exchanges ++ heard)
        [.append parts.flatten head] after later)
      (fetched : Fetched config origin last? head lookups run heard parts)
      (isValue : outcome = .value (some head))

theorem keeps_hotZone_fetches (turns : Nat) :
    (hotZone config turns origin last?).Keeps (Conduct.transcribed transcript) (fun _ _ => True)
      (Fetches config transcript origin last? session world) session world := by
  have refreshes : refreshHead.Quietly (Conduct.transcribed transcript) besideLedger
      (fun _ _ _ => True) session world :=
    onlyMoves_refreshHead.quietly fun _ _ _ moves =>
      ⟨congrArg FaithfulStore.ledger moves.entry, moves.events⟩
  rw [hotZone]
  apply (Keeps.with_ends refreshes).bind
  · intro head begun early holds
    rcases holds with ⟨⟨unchanged, -⟩, follows⟩
    have idle : ∀ {outcome : Outcome (Option Block)} {after : Session ε} {later : ω}
        {heard : List Exchange}, Since transcript begun early heard [] after later →
          Fetches config transcript origin last? session world outcome after later :=
      fun since => .nothing (IsPassing.trans unchanged since.besideLedger)
    split
    · cases last? <;> exact Fetches.nothing unchanged
    case isFalse within =>
      apply (asks_enter _).sequence since_start
      case quits => exact fun _ _ _ _ _ _ since => idle since
      case continues =>
        intro _ now late more none since
        rw [none] at since
        apply (asks_descend turns origin head).sequence since
        case quits => exact fun _ _ _ _ _ _ since => idle since
        case continues =>
          intro run now late more found since
          rcases found with ⟨lookups, descends, reaches, rfl⟩
          dsimp only
          split
          case isFalse => exact idle since
          case isTrue connects =>
            apply (asks_logsOfBlocks config _).sequence since
            case quits => exact fun _ _ _ _ _ _ since => idle since
            case continues =>
              intro logs now late heard found since
              rcases found with ⟨-, parts, rfl, answered⟩
              have fetched : Fetched config origin last? head lookups run heard parts := by
                refine ⟨descends, Nat.le_of_not_lt within, reaches, ?_, answered⟩
                intro last isLast
                rw [isLast] at connects
                exact eq_of_beq connects
              apply (keeps_apply_since _).bind
              · intro _ after later sinceThen
                refine .stored follows unchanged ?_ fetched rfl
                have sinceStart := since.trans sinceThen
                rw [List.append_nil] at sinceStart
                exact sinceStart
              · exact fun _ _ _ sinceThen => idle (since.wait sinceThen)
              · exact fun _ _ _ sinceThen => idle (since.wait sinceThen)
  · exact fun _ _ _ unchanged => .nothing unchanged
  · exact fun _ _ _ unchanged => .nothing unchanged

/-- The walk of a hot zone takes as many turns as it looks up parents. As long as each answer
is below its child, these are at most as many as the heights from the origin up to the head.
What is then stored is the run of all blocks from the origin up to the head if and only if
each answer was the parent that was asked for. -/
theorem hotZone_contiguous_iff {turns : Nat} {after : Session ε} {later : ω}
    {outcome : Outcome (Option Block)}
    (ended : (hotZone config turns origin last?).Ends (Conduct.transcribed transcript) session world
      outcome after later) :
    (∀ (begun : Session ε) (early : ω) (head : Block) (count : Nat)
        (now : Standing (Session ε) ω (Block × List Block)),
      Turns (Conduct.transcribed transcript) (descendStep origin) ⟨(head, []), begun, early⟩ count
        now →
      ∃ lookups, Descends origin head lookups now.place ∧ lookups.length = count ∧
        Since transcript begun early (lookups.flatMap Lookup.exchanges) [] now.state now.world ∧
        ((∀ lookup ∈ lookups, lookup.parent.number < lookup.child.number) →
          count ≤ head.number - origin ∧
            (origin < now.place.1.number → count < head.number - origin))) ∧
    (besideLedger session world after later ∨
      ∃ head begun early lookups run heard parts,
        refreshHead.Ends (Conduct.transcribed transcript) session world (.value head) begun early ∧
        besideLedger session world begun early ∧
        Since transcript begun early (lookups.flatMap Lookup.exchanges ++ heard)
          [.append parts.flatten head] after later ∧
        Fetched config origin last? head lookups run heard parts ∧
        outcome = .value (some head) ∧
        (run.1 :: run.2).getLast (List.cons_ne_nil _ _) = head ∧
        (Block.Linked (run.1 :: run.2) ∧ run.1.number = origin ↔
          ∀ lookup ∈ lookups, lookup.child.Extends lookup.parent)) := by
  constructor
  · intro begun early head count now taken
    rcases descends_of_turns taken with ⟨lookups, descends, rfl, since⟩
    exact ⟨lookups, descends, rfl, since, descends.length_le_sub⟩
  · cases (keeps_hotZone_fetches turns).ends ended with
    | nothing unchanged => exact .inl unchanged
    | stored follows unchanged since fetched isValue =>
        exact .inr ⟨_, _, _, _, _, _, _, follows, unchanged, since, fetched, isValue,
          fetched.descends.getLast_eq, fetched.contiguous_iff⟩

theorem hotZone_contiguous_iff_at_fork :
    let config : Config := { maxBlockBacklog := 1 }
    let ended := (hotZone config 20 0 none).run Fork.refusing.transcribing Fork.session ((), [])
    ended.1.value? = some (some (Fork.left 3)) ∧
      ∃ (lookups : List Lookup) (run : Block × List Block) (heard : List Exchange)
        (parts : List (List Log)),
        Fetched config 0 none (Fork.left 3) lookups run heard parts ∧
        ended.2.1.entry.logs = parts.flatten ∧
        (Block.Linked (run.1 :: run.2) ∧ run.1.number = 0 ↔
          ∀ lookup ∈ lookups, lookup.child.Extends lookup.parent) := by
  intro config ended
  have isValue : ended.1.value? = some (some (Fork.left 3)) := by decide +kernel
  have isStored : ended.2.1.entry.lastBlock = some (Fork.left 3) := by decide +kernel
  have told := hotZone_contiguous_iff (Routine.ends_of_run Fork.refusing_follows isValue)
  rcases told.2 with unchanged | ⟨head, begun, early, lookups, run, heard, parts, -, unchanged,
    since, fetched, same, -, contiguous⟩
  · have isEmpty : ended.2.1.entry.lastBlock = none := congrArg Ledger.lastBlock unchanged.1
    rw [isEmpty] at isStored
    cases isStored
  · cases same
    have logs : ended.2.1.entry.logs = parts.flatten := by
      have ledger := since.ledger
      rw [unchanged.1] at ledger
      exact (congrArg Ledger.logs ledger).trans (List.nil_append _)
    exact ⟨isValue, lookups, run, heard, parts, fetched, logs, contiguous⟩

end Session

/-! ## Parents of the height of their children -/

namespace Fork

def mid : Block := ⟨1, "mid", "root", 0⟩
def top : Block := ⟨1, "top", "mid", 0⟩

def strayBlocks : List Block := [root, mid, top]

def strayReply : (call : Node.Call) → call.Reply
  | .height => .ok top.number
  | .blockByTag _ => .ok (some top)
  | .blockByHash hash _ => .ok (strayBlocks.find? (·.hash == hash))
  | .logs ⟨_, .blockHash hash⟩ => .ok ((strayBlocks.filter (·.hash == hash)).map logOf)
  | .logs _ => .ok []
  | .chainId => .ok 1

/-- A node whose blocks do not get lower from child to parent. -/
def stray : Surroundings (Session Entry) Unit :=
  .calm (fun _ _ => strayReply) fun _ _ => ()

theorem stray_follows :
    stray.transcribing.Follows (Conduct.transcribed (ε := Entry) Prod.snd) := by
  apply Surroundings.transcribing_follows
  intro _ _ head isHead
  cases isHead
  decide

/-- A block that names itself as its parent. -/
def knot : Block := ⟨1, "knot", "knot", 0⟩

def knotReply : (call : Node.Call) → call.Reply
  | .height => .ok knot.number
  | .blockByTag _ => .ok (some knot)
  | .blockByHash _ _ => .ok (some knot)
  | .logs _ => .ok []
  | .chainId => .ok 1

def knotted : Surroundings (Session Entry) Unit :=
  .calm (fun _ _ => knotReply) fun _ _ => ()

theorem knotted_follows :
    knotted.transcribing.Follows (Conduct.transcribed (ε := Entry) Prod.snd) := by
  apply Surroundings.transcribing_follows
  intro _ _ head isHead
  cases isHead
  decide

end Fork

namespace Session

open Routine (Turns)

/-- A hot zone of two heights looks two parents up and stores three blocks, two of them of
the same height. -/
theorem hotZone_stores_stray_at_fork :
    let config : Config := { maxBlockBacklog := 1 }
    let ended := (hotZone config 20 0 none).run Fork.stray.transcribing Fork.session ((), [])
    (hotZone config 20 0 none).Ends (Conduct.transcribed Prod.snd) Fork.session ((), [])
        (.value (some Fork.top)) ended.2.1 ended.2.2 ∧
      ∃ (lookups : List Lookup) (run : Block × List Block) (heard : List Exchange)
        (parts : List (List Log)),
        Fetched config 0 none Fork.top lookups run heard parts ∧
        (∃ latest, ended.2.2.2 = latest ++ (lookups.flatMap Lookup.exchanges ++ heard)) ∧
        ended.2.1.entry.logs = parts.flatten ∧
        Fork.top.number - 0 < lookups.length ∧ ¬ Block.Linked (run.1 :: run.2) := by
  let lookups : List Lookup := [⟨Fork.top, Fork.mid, false⟩, ⟨Fork.mid, Fork.root, false⟩]
  let latest : Exchange := ⟨.blockByTag .latest, some (.ok (some Fork.top))⟩
  let blocks : List Block := [Fork.root, Fork.mid, Fork.top]
  let heard : List Exchange := blocks.map fun block => .logsOf {} block.hash [Fork.logOf block]
  have isTop : Lookup.IsMade 0 Fork.top ⟨Fork.top, Fork.mid, false⟩ := ⟨rfl, by decide, nofun⟩
  have isMid : Lookup.IsMade 0 Fork.mid ⟨Fork.mid, Fork.root, false⟩ := ⟨rfl, by decide, nofun⟩
  have descends : Descends 0 Fork.top lookups (Fork.root, [Fork.mid, Fork.top]) :=
    (Descends.starts.goesOn isTop).goesOn isMid
  have answered : List.Forall₂ (fun (block : Block) part => .logsOf {} block.hash part ∈ heard)
      blocks (blocks.map fun block => [Fork.logOf block]) := by
    rw [List.forall₂_map_right_iff, List.forall₂_same]
    exact fun block member => List.mem_map_of_mem member
  have fetched : Fetched { maxBlockBacklog := 1 } 0 none Fork.top lookups
      (Fork.root, [Fork.mid, Fork.top]) heard (blocks.map fun block => [Fork.logOf block]) :=
    ⟨descends, by decide, by decide, nofun, answered⟩
  refine ⟨Routine.ends_of_run Fork.stray_follows ?_, lookups, _, heard, _, fetched,
    ⟨[latest, latest], ?_⟩, ?_, ?_, ?_⟩
  · decide +kernel
  · decide +kernel
  · decide +kernel
  · decide
  · decide

theorem run_descendStep_knotted (newer : List Block) (world : Unit × List Exchange) :
    ∃ later, (descendStep 0 (Fork.knot, newer)).run Fork.knotted.transcribing Fork.session world =
      (.value (.inl (Fork.knot, Fork.knot :: newer)), Fork.session, later) := by
  rw [descendStep, parentOf, blockWithHash, call, Routine.guarded, Routine.node,
    Routine.cancelable]
  exact ⟨_, rfl⟩

/-- The parents of a block that names itself are looked up forever. -/
theorem turns_at_knot (count : Nat) :
    ∃ newer world, Turns (Conduct.transcribed Prod.snd) (descendStep 0)
      ⟨(Fork.knot, []), Fork.session, ((), [])⟩ count
      ⟨(Fork.knot, newer), Fork.session, world⟩ := by
  induction count with
  | zero => exact ⟨[], ((), []), .none⟩
  | succ count induction =>
      rcases induction with ⟨newer, world, taken⟩
      rcases run_descendStep_knotted newer world with ⟨later, run⟩
      have ended := Routine.ends_run Fork.knotted_follows (descendStep 0 (Fork.knot, newer))
        Fork.session world
      rw [run] at ended
      exact ⟨_, later, taken.more ended⟩

end Session

end ReorgSync
