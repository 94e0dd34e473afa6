import ReorgSync.Proofs.Follower.History
import ReorgSync.Proofs.Sync.ByHash

namespace ReorgSync

/-! The live loop takes the deltas of a follower one by one, and the entry may be
ahead of them from the start. However the deltas fork, go back to a branch that
was left, or leave gaps, the entry ends at the head of the last window. -/

/-- Surroundings of a loop that is not canceled, with a node that answers every
question for the logs of one block. -/
structure Conduct.IsFaultless (conduct : Conduct (Session Entry) ω) (tree : BlockTree) :
    Prop where
  store : ∀ {query : Query} {session after : Session Entry} {world later : ω}
    {answer : query.Answer}, conduct query session world answer after later →
      after.entry = session.entry ∧ after.events = session.events
  isCanceled : ∀ {session after : Session Entry} {world later : ω} {canceled : Bool},
    conduct .isCanceled session world canceled after later → canceled = false
  logs : ∀ {filter : Filter} {hash : String} {session after : Session Entry} {world later : ω}
    {reply : Option (Node.Call.Reply (.logs ⟨filter, .blockHash hash⟩))},
    conduct (.cancelableNode (.logs ⟨filter, .blockHash hash⟩)) session world reply after later →
      reply = some (.ok ((tree.logs hash).filter filter.matchesLog))

namespace Session

variable {tree : BlockTree} {conduct : Conduct (Session Entry) ω}
  {before session after : Session Entry} {world later : ω} {target : Block}

/-! ## One delta -/

/-- Nothing was stored meanwhile. -/
def untouched (before : Session Entry) (_ : ω) (after : Session Entry) (_ : ω) : Prop :=
  after.entry = before.entry ∧ after.events = before.events

theorem untouched_trans {early : ω} (faultless : conduct.IsFaultless tree)
    (passed : untouched before early session world) {query : Query} {answer : query.Answer}
    (accepted : conduct query session world answer after later) :
    untouched before early after later := by
  have kept := faultless.store accepted
  exact ⟨kept.1.trans passed.1, kept.2.trans passed.2⟩

theorem keeps_guarded {early : ω} {routine : Routine (Session Entry) α}
    {ends : Outcome α → Session Entry → ω → Prop} (faultless : conduct.IsFaultless tree)
    (passed : untouched before early session world)
    (keeps : ∀ after later, untouched before early after later →
      routine.cancelable.Keeps conduct (fun _ _ => True) ends after later) :
    routine.guarded.Keeps conduct (fun _ _ => True) ends session world := by
  intro canceled after later accepted
  cases canceled with
  | true => cases faultless.isCanceled accepted
  | false => exact keeps after later (untouched_trans faultless passed accepted)

theorem keeps_blockLogs (faultless : conduct.IsFaultless tree) (config : Config) (block : Block)
    {early : ω} (passed : untouched before early session world) :
    (blockLogs config block.hash).Keeps conduct (fun _ _ => True)
      (Outcome.Meets (fun logs after later => untouched before early after later ∧
        logs = tree.logsOf config.filter block) fun _ _ => False) session world := by
  rw [blockLogs]
  cases max config.retryAttempts 1 - 1 with
  | zero =>
      apply keeps_guarded faultless passed
      intro now late passed
      rw [Routine.node, Routine.cancelable]
      intro reply after later answered
      cases faultless.logs answered
      exact ⟨untouched_trans faultless passed answered, rfl⟩
  | succ attempts =>
      have asked : (Routine.ask (.cancelableNode (.logs ⟨config.filter, .blockHash block.hash⟩))
          .done : Routine (Session Entry) _).guarded.Keeps conduct (fun _ _ => True)
          (Outcome.Meets (fun reply after later => untouched before early after later ∧
            reply = some (.ok (tree.logsOf config.filter block))) fun _ _ => False)
          session world := by
        apply keeps_guarded faultless passed
        intro now late passed reply after later answered
        exact ⟨untouched_trans faultless passed answered, faultless.logs answered⟩
      apply asked.andThen
      intro reply after later holds
      rcases holds with ⟨passed, rfl⟩
      exact ⟨passed, rfl⟩

theorem keeps_logsOfBlocks (faultless : conduct.IsFaultless tree) (config : Config)
    (blocks : List Block) {early : ω} (passed : untouched before early session world) :
    (logsOfBlocks config blocks).Keeps conduct (fun _ _ => True)
      (Outcome.Meets (fun logs after later => untouched before early after later ∧
        logs = tree.logsAlong config.filter blocks) fun _ _ => False) session world := by
  induction blocks generalizing session world with
  | nil => exact ⟨passed, rfl⟩
  | cons block rest induction =>
      apply (keeps_blockLogs faultless config block passed).andThen
      intro _ now late holds
      rcases holds with ⟨passed, rfl⟩
      apply (induction passed).andThen
      intro _ after later holds
      rcases holds with ⟨passed, rfl⟩
      exact ⟨passed, (BlockTree.logsAlong_cons rest).symm⟩

/-! ## One turn -/

/-- A synchronisation ended at a block, and the entry with it. -/
def LandsOn (tree : BlockTree) (filter : Filter) (target : Block) (outcome : Outcome Block)
    (after : Session Entry) : Prop :=
  outcome = .value target ∧ after.entry.lastBlock = some target ∧ after.entry.Matches tree filter

/-- Where the entry ends after a turn: at the last block of the delta, still at
the same block if the delta holds nothing above it, or where a synchronisation
landed. -/
inductive Advances (tree : BlockTree) (filter : Filter) (target last : Block) (delta : Delta)
    (next : Block) : Prop
  | applied (isLast : delta.added.getLast? = some next)
  | skipped (same : next = last) (base : Base) (rests : Rests tree filter last delta base)
      (nothing : ∀ block ∈ delta.added, block.number ≤ base.number)
  | resumed (same : next = target)

theorem keeps_liveStep {setup : Setup} {turns : Nat} {live : Live} {delta : Delta}
    (faultless : conduct.IsFaultless tree)
    (entryMatches : session.entry.Matches tree setup.config.filter)
    (ends : session.entry.lastBlock = some live.last) (honest : delta.IsHonest tree)
    (found : session.follower.deltas.find live.position = .item delta)
    (resolved : ∀ middle between,
      (applyDelta setup.config live.last delta).Ends conduct session world (.value .gap) middle
        between → ∀ outcome after later,
        (catchUp setup turns).Ends conduct middle between outcome after later →
          LandsOn tree setup.config.filter target outcome after) :
    (liveStep setup turns live).Keeps conduct (fun _ _ => True)
      (Outcome.Meets (fun turn after _ => ∃ next, turn = .inl ⟨live.position + 1, next⟩ ∧
        after.entry.lastBlock = some next ∧ after.entry.Matches tree setup.config.filter ∧
        Advances tree setup.config.filter target live.last delta next) fun _ _ => False)
      session world := by
  have matched := (Entry.matches_of_lastBlock ends).mp entryMatches
  have took : (applyDelta setup.config live.last delta).Keeps conduct (fun _ _ => True)
      (Outcome.Meets (Took tree setup.config.filter untouched session world live.last delta)
        fun _ _ => False) session world :=
    keeps_applyDelta ⟨rfl, rfl⟩ (fun _ _ passed => passed) (fun _ _ _ _ _ _ => trivial)
      (fun blocks => keeps_logsOfBlocks faultless setup.config blocks ⟨rfl, rfl⟩)
      matched.1 matched.2 honest
  apply Routine.Keeps.get_andThen
  rw [found]
  dsimp only
  apply took.with_ends.andThen
  intro step middle between holds
  rcases holds with ⟨became, ended⟩
  cases step with
  | applied newest =>
      rcases became with ⟨isLast, stores, -⟩
      exact ⟨newest, rfl, stores.ends, stores.entryMatches, .applied isLast⟩
  | skipped =>
      rcases became with ⟨passed, base, rests, nothing⟩
      refine ⟨live.last, rfl, ?_, ?_, .skipped rfl base rests nothing⟩
      · rw [passed.1]
        exact ends
      · rw [passed.1]
        exact entryMatches
  | gap =>
      have lands : (catchUp setup turns).Keeps conduct (fun _ _ => True)
          (Outcome.Meets (fun reached after _ =>
            LandsOn tree setup.config.filter target (.value reached) after) fun _ _ => False)
          middle between := by
        apply (Routine.keeps_of_ends (resolved middle between ended)).mono
        intro outcome after later landed
        cases outcome with
        | value reached => exact landed
        | error error => cases landed.1
        | halted cause => cases landed.1
      have resumes : (resume setup turns (live.position + 1)).Keeps conduct (fun _ _ => True)
          (Outcome.Meets (fun next after _ => next = ⟨live.position + 1, target⟩ ∧
            after.entry.lastBlock = some target ∧ after.entry.Matches tree setup.config.filter)
            fun _ _ => False) middle between := by
        apply lands.andThen
        intro reached after later landed
        rcases landed with ⟨same, isLast, matchesThen⟩
        cases same
        exact ⟨trivial, rfl, isLast, matchesThen⟩
      apply resumes.andThen
      intro next after later holds
      rcases holds with ⟨rfl, isLast, matchesThen⟩
      exact ⟨target, rfl, isLast, matchesThen, .resumed rfl⟩

/-! ## A run of the loop -/

/-- The live loop takes the deltas it finds, one in each turn, until none is left
or a turn ends the loop. Each gap is resolved by a synchronisation that lands on
the target. -/
inductive Takes (conduct : Conduct (Session Entry) ω) (tree : BlockTree) (setup : Setup)
    (turns : Nat) (target : Block) : List Delta → Live → Session Entry → ω →
      Outcome (Live ⊕ Empty) → Session Entry → ω → Prop
  | done {live : Live} {session : Session Entry} {world : ω} :
      Takes conduct tree setup turns target [] live session world (.value (.inl live)) session world
  | turn {delta : Delta} {deltas : List Delta} {live next : Live}
      {session middle after : Session Entry} {world between later : ω}
      {outcome : Outcome (Live ⊕ Empty)}
      (found : session.follower.deltas.find live.position = .item delta)
      (resolved : ∀ middle between,
        (applyDelta setup.config live.last delta).Ends conduct session world (.value .gap) middle
          between → ∀ outcome after later,
          (catchUp setup turns).Ends conduct middle between outcome after later →
            LandsOn tree setup.config.filter target outcome after)
      (ended : (liveStep setup turns live).Ends conduct session world (.value (.inl next)) middle
        between)
      (further : Takes conduct tree setup turns target deltas next middle between outcome after
        later) :
      Takes conduct tree setup turns target (delta :: deltas) live session world outcome after later
  | stopped {delta : Delta} {deltas : List Delta} {live : Live} {session after : Session Entry}
      {world later : ω} {outcome : Outcome (Live ⊕ Empty)}
      (found : session.follower.deltas.find live.position = .item delta)
      (resolved : ∀ middle between,
        (applyDelta setup.config live.last delta).Ends conduct session world (.value .gap) middle
          between → ∀ outcome after later,
          (catchUp setup turns).Ends conduct middle between outcome after later →
            LandsOn tree setup.config.filter target outcome after)
      (ended : (liveStep setup turns live).Ends conduct session world outcome after later)
      (isEnd : ∀ next, outcome ≠ .value (.inl next)) :
      Takes conduct tree setup turns target (delta :: deltas) live session world outcome after later

open Follower (Trail lastWindow History)

/-- A delta holds something above the block that it connects to, if the entry ends
at the head of the window that it changed. -/
theorem Rests.exists_above {filter : Filter} {last : Block} {delta : Delta} {base : Base}
    {window nextWindow : Window} (rests : Rests tree filter last delta base)
    (moves : delta.Moves tree window nextWindow) (isHead : window.head? = some last) :
    ∃ block ∈ delta.added, base.number < block.number := by
  rcases moves.newest with ⟨newest, isNewest, -⟩
  cases added : delta.added with
  | nil => simp [added] at isNewest
  | cons first rest =>
      refine ⟨first, List.mem_cons_self, ?_⟩
      cases moves.joins with
      | ahead head isSame removed above =>
          rw [isHead] at isSame
          cases isSame
          have isAbove := above first (by simp [added])
          cases rests with
          | behind => exact isAbove
          | below isFirst => simp [removed] at isFirst
      | behind kept foot split isLast removedNext addedNext =>
          have next := (addedNext first (by simp [added])).1
          rw [Window.head?, split] at isHead
          cases rests with
          | behind apart =>
              have nothing : delta.removed = [] := by
                by_contra some
                rw [List.getLast?_append_of_ne_nil _ some] at isHead
                exact apart (List.mem_of_getLast? isHead)
              rw [nothing, List.append_nil, isLast] at isHead
              cases isHead
              show last.number < first.number
              omega
          | @below displaced isFirst =>
              have displacedNext := (removedNext displaced isFirst).1
              show displaced.number - 1 < first.number
              omega

/-- After a turn, the entry ends at the head of a window behind the delta. -/
theorem Advances.isHead {filter : Filter} {last next : Block} {delta : Delta}
    {window nextWindow : Window} {rest : List (Delta × Window)}
    (advances : Advances tree filter target last delta next)
    (moves : delta.Moves tree window nextWindow)
    (isTarget : (lastWindow nextWindow rest).head? = some target)
    (isHead : ∃ reached ∈ window :: nextWindow :: rest.map Prod.snd, reached.head? = some last) :
    ∃ reached ∈ nextWindow :: rest.map Prod.snd, reached.head? = some next := by
  rcases moves.newest with ⟨newest, isNewest, isNextHead⟩
  cases advances with
  | applied isLast =>
      rw [isNewest] at isLast
      cases isLast
      exact ⟨nextWindow, List.mem_cons_self, isNextHead⟩
  | resumed same =>
      rw [same]
      exact ⟨_, Follower.lastWindow_mem nextWindow rest, isTarget⟩
  | skipped same base rests nothing =>
      rw [same]
      rcases isHead with ⟨reached, member, isHead⟩
      rcases List.mem_cons.mp member with rfl | member
      · rcases rests.exists_above moves isHead with ⟨block, blockMember, above⟩
        exact absurd above (Nat.not_lt.mpr (nothing block blockMember))
      · exact ⟨reached, member, isHead⟩

theorem Takes.lands {setup : Setup} {turns : Nat} {deltas : List Delta} {live : Live}
    {window : Window} {trail : List (Delta × Window)} {outcome : Outcome (Live ⊕ Empty)}
    (takes : Takes conduct tree setup turns target deltas live session world outcome after later)
    (faultless : conduct.IsFaultless tree) (isTrail : Trail tree window trail)
    (same : trail.map Prod.fst = deltas)
    (isTarget : (lastWindow window trail).head? = some target)
    (entryMatches : session.entry.Matches tree setup.config.filter)
    (ends : session.entry.lastBlock = some live.last)
    (isHead : ∃ reached ∈ window :: trail.map Prod.snd, reached.head? = some live.last) :
    outcome = .value (.inl ⟨live.position + trail.length, target⟩) ∧
      after.entry.lastBlock = some target ∧ after.entry.Matches tree setup.config.filter := by
  induction takes generalizing window trail with
  | done =>
      cases List.map_eq_nil_iff.mp same
      rcases isHead with ⟨reached, member, isHead⟩
      rw [List.map_nil, List.mem_singleton] at member
      rw [member, show window.head? = some target from isTarget] at isHead
      cases isHead
      exact ⟨rfl, ends, entryMatches⟩
  | turn found resolved ended further induction =>
      rcases trail with _ | ⟨⟨delta, nextWindow⟩, rest⟩
      · cases same
      · rcases isTrail with ⟨moves, isRest⟩
        cases same
        have turned := (keeps_liveStep faultless entryMatches ends moves.honest found
          resolved).ends ended
        rcases turned with ⟨next, isNext, nextEnds, nextMatches, advances⟩
        cases isNext
        have landed := induction isRest rfl isTarget nextMatches nextEnds
          (advances.isHead moves isTarget isHead)
        rw [List.length_cons, Nat.add_comm rest.length, ← Nat.add_assoc]
        exact landed
  | stopped found resolved ended isEnd =>
      rcases trail with _ | ⟨⟨delta, nextWindow⟩, rest⟩
      · cases same
      · cases same
        have turned := (keeps_liveStep faultless entryMatches ends isTrail.1.honest found
          resolved).ends ended
        rcases turned.exists_value with ⟨_, isValue, next, isNext, -⟩
        rw [isNext] at isValue
        exact absurd isValue (isEnd _)

/-- The live loop converges: it ends at the head of the last window, wherever
among the windows it starts. -/
theorem live_loop_converges {headOf : υ → Block} {follower : Follower}
    {trail : List (Delta × Window)} {setup : Setup} {turns : Nat} {live : Live}
    {outcome : Outcome (Live ⊕ Empty)} (history : History tree headOf follower trail)
    (honest : follower.IsHonest tree) (filled : follower.window.blocks ≠ [])
    (isTarget : (lastWindow follower.window trail).head? = some target)
    (entryMatches : session.entry.Matches tree setup.config.filter)
    (ends : session.entry.lastBlock = some live.last)
    (isHead : ∃ window ∈ follower.window :: trail.map Prod.snd, window.head? = some live.last)
    (faultless : conduct.IsFaultless tree)
    (takes : Takes conduct tree setup turns target (trail.map Prod.fst) live session world outcome
      after later) :
    outcome = .value (.inl ⟨live.position + trail.length, target⟩) ∧
      after.entry.lastBlock = some target ∧ after.entry.Matches tree setup.config.filter :=
  takes.lands faultless (history.trail honest filled) rfl isTarget entryMatches ends isHead

/-! The loop in scripted surroundings. -/

theorem isFaultless_scripted (tree : BlockTree) (headAt : Nat → Block) :
    (Surroundings.scripted tree headAt).conduct.IsFaultless tree where
  store answered := by
    cases answered
    exact ⟨rfl, rfl⟩
  isCanceled answered := by
    cases answered
    rfl
  logs answered := by
    cases answered
    rfl

theorem Takes.turn_of_run {setup : Setup} {turns : Nat} {delta : Delta} {deltas : List Delta}
    {live : Live} (next : Live) {outcome : Outcome (Live ⊕ Empty)} {surroundings : Surroundings _ ω}
    (found : session.follower.deltas.find live.position = .item delta)
    (resolved : ((applyDelta setup.config live.last delta).run surroundings session world).1.value?
        = some .gap →
        let gap := (applyDelta setup.config live.last delta).run surroundings session world
        let ended := (catchUp setup turns).run surroundings gap.2.1 gap.2.2
        ended.1.value? = some target ∧ ended.2.1.entry.lastBlock = some target ∧
          tree.Contains target ∧
            ended.2.1.entry.logs = tree.logsAlong setup.config.filter (tree.path target))
    (stepped : ((liveStep setup turns live).run surroundings session world).1.value? =
      some (.inl next))
    (further : Takes surroundings.conduct tree setup turns target deltas next
      ((liveStep setup turns live).run surroundings session world).2.1
      ((liveStep setup turns live).run surroundings session world).2.2 outcome after later) :
    Takes surroundings.conduct tree setup turns target (delta :: deltas) live session world outcome
      after later := by
  refine .turn found ?_ (Routine.ends_of_run (fun _ _ _ _ _ _ answered => answered) stepped) further
  intro middle between gap outcome after later ended
  have run := Routine.run_eq_of_ends gap
  have caught := Routine.run_eq_of_ends ended
  have landed := resolved (by rw [run]; rfl)
  rw [run] at landed
  dsimp only at landed
  rw [caught] at landed
  exact ⟨Outcome.eq_value landed.1, landed.2.1,
    (Entry.matches_of_lastBlock landed.2.1).mpr landed.2.2⟩

end Session

/-! A follower that goes over to the other branch of a fork and back. -/

namespace Fork

/-- The follower after some candidates, the newest one first. -/
def followerAt : List Block → Follower
  | [] => { Follower.make 3 0 none with window := ⟨[root], 3⟩ }
  | candidate :: earlier =>
      ((Follower.reconcile candidate).run (.scripted tree fun _ => left 3)
        (followerAt earlier) 0).2.1

def across : Delta where
  added := [right 1, right 2]
  removed := [left 1]

def back : Delta where
  added := [left 1, left 2, left 3]
  removed := [right 1, right 2]

def trail : List (Delta × Window) :=
  [({ added := [left 1] }, (followerAt [left 1]).window),
   (across, (followerAt [right 2, left 1]).window),
   (back, (followerAt [left 3, right 2, left 1]).window)]

theorem history_trail : Follower.History tree (fun _ : Nat => left 3) (followerAt []) trail := by
  have follows : (Surroundings.scripted tree fun _ => left 3).Follows
      (tree.conduct (fun _ : Nat => left 3) Follower.alone) :=
    Surroundings.calm_follows (fun _ _ => tree.truthful_reply 1 none "" _)
      (fun _ => by decide +kernel) fun _ _ _ => rfl
  have step : ∀ candidate {delta earlier rest}, tree.Contains candidate →
      ((Follower.reconcile candidate).run (.scripted tree fun _ => left 3)
        (followerAt earlier) 0).1.value? = some (some delta) →
      Follower.History tree (fun _ : Nat => left 3) (followerAt (candidate :: earlier)) rest →
        Follower.History tree (fun _ : Nat => left 3) (followerAt earlier)
          ((delta, (followerAt (candidate :: earlier)).window) :: rest) :=
    fun _ _ _ _ contains same further =>
      .published contains (Routine.ends_of_run follows same) further
  apply step (left 1)
  · decide +kernel
  · decide +kernel
  apply step (right 2)
  · decide +kernel
  · decide +kernel
  apply step (left 3)
  · decide +kernel
  · decide +kernel
  exact .here

end Fork

/-- The entry is ahead of a fork and of the way back: the first delta is skipped,
the second one leaves a gap, and the third one is skipped. -/
theorem Session.live_loop_converges_after_fork :
    let setup : Setup := { config := { maxBlockBacklog := 3 } }
    let session : Session Entry :=
      { Session.endingAt Fork.tree setup.config (Fork.left 3) with
        follower := Fork.followerAt [Fork.left 3, Fork.right 2, Fork.left 1] }
    ∃ outcome after later,
      Takes (Surroundings.scripted Fork.tree fun _ => Fork.left 3).conduct Fork.tree setup 5
        (Fork.left 3) (Fork.trail.map Prod.fst) ⟨0, Fork.left 3⟩ session 0 outcome after later ∧
      outcome = .value (.inl ⟨3, Fork.left 3⟩) ∧
      after.entry.lastBlock = some (Fork.left 3) ∧ after.entry.Matches Fork.tree {} := by
  intro setup session
  have contains : Fork.tree.Contains (Fork.left 3) := by decide +kernel
  have takes : ∃ outcome after later,
      Takes (Surroundings.scripted Fork.tree fun _ => Fork.left 3).conduct Fork.tree setup 5
        (Fork.left 3) (Fork.trail.map Prod.fst) ⟨0, Fork.left 3⟩ session 0 outcome after later := by
    refine ⟨_, _, _, .turn_of_run ⟨1, Fork.left 3⟩ ?_ ?_ ?_
      (.turn_of_run ⟨2, Fork.left 3⟩ ?_ ?_ ?_ (.turn_of_run ⟨3, Fork.left 3⟩ ?_ ?_ ?_ .done))⟩
    all_goals decide +kernel
  rcases takes with ⟨outcome, after, later, takes⟩
  refine ⟨outcome, after, later, takes, ?_⟩
  have isHead : ∃ window ∈ (Fork.followerAt []).window :: Fork.trail.map Prod.snd,
      window.head? = some (Fork.left 3) := by
    decide +kernel
  have isTarget : (Follower.lastWindow (Fork.followerAt []).window Fork.trail).head? =
      some (Fork.left 3) := by
    decide +kernel
  have entryMatches : session.entry.Matches Fork.tree setup.config.filter :=
    (isSound_endingAt contains).entry
  exact live_loop_converges Fork.history_trail ⟨by decide +kernel, by decide +kernel⟩
    (by decide +kernel) isTarget entryMatches rfl isHead (isFaultless_scripted Fork.tree _) takes

end ReorgSync
