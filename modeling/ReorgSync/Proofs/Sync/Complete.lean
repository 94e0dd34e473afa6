import ReorgSync.Proofs.Sync.Course
import ReorgSync.Proofs.Sync.Resume

namespace ReorgSync

/-! On a chain that stands still a synchronisation ends, and then everything up to
the head is stored. How far one range reaches, how often ranges are refused and how
many blocks are fetched one by one only decides which part of a run stores what. -/

namespace Session

open Routine StillChain

variable {chain : StillChain} {config : Config} {session : Session Entry}
  {follower : Follower} {block : Block} {origin : Nat} {last : Option Block}

/-! ## Block by block -/

/-- A session whose follower knows the head of the chain. -/
def Follows (chain : StillChain) (entry : Entry) (session : Session Entry) : Prop :=
  session.entry = entry ∧ session.follower.window.head? = some chain.head ∧
    ∀ block ∈ session.follower.window.blocks, block ∈ chain.blocks

theorem attains_refreshHead (fresh : session.follower.window.blocks = []) :
    refreshHead.Attains chain.surroundings (fun head after _ =>
      head = chain.head ∧ Follows chain session.entry after) session () := by
  have isAt : session.follower.IsAt chain session.follower.backlog := by
    refine ⟨rfl, ?_, .inl fresh⟩
    rw [fresh]
    exact fun _ member => nomatch member
  have tries : refreshHead.Tries chain False
      (fun after => ∀ block ∈ after.follower.window.blocks, block ∈ chain.blocks)
      (fun head after => head = chain.head ∧ after.entry = session.entry ∧
        after.follower.window.head? = some chain.head) session :=
    tries_refreshHead isAt isAt.onChain fun _ _ _ onChain => onChain
  apply tries.attains.mono
  intro head after _ holds
  rcases holds with ⟨onChain, isHead, entry, filled⟩
  exact ⟨isHead, entry, filled, onChain⟩

theorem attains_descend {turns : Nat} (follows : Follows chain session.entry session)
    (below : origin ≤ chain.head.number) (enough : chain.head.number < turns) :
    (descend turns origin chain.head).Attains chain.surroundings (fun run after _ =>
      run.1 :: run.2 = chain.blocks.drop origin ∧ after = session) session () :=
  (seeks_descend follows.2.2 below (.inr enough)).attains fun _ isDropped => ⟨isDropped, rfl⟩

theorem attains_logsOfBlocks (blocks : List Block) :
    (logsOfBlocks config blocks).Attains chain.surroundings (fun logs after _ =>
      logs = chain.tree.logsAlong config.filter blocks ∧ after = session) session () :=
  (seeks_logsOfBlocks config blocks).attains_found ⟨rfl, rfl⟩

/-- The blocks behind the stored ones are those that are left. -/
theorem attains_hotZone {turns : Nat}
    (stored : StoredBelow chain config.filter follower origin last session)
    (fresh : follower.window.blocks = []) (enough : chain.head.number < turns) :
    (hotZone config turns origin last).Attains chain.surroundings (fun reached after _ =>
      reached = some chain.head ∧
        after.entry = chain.entryBelow config.filter (chain.head.number + 1)) session () := by
  have isHead := BlockTree.getElem?_path_number chain.contains
  have within := stored.origin_le
  apply Attains.bind
  apply (attains_refreshHead (by rw [stored.follower_eq]; exact fresh)).mono
  intro head after _ holds
  rcases holds with ⟨rfl, follows⟩
  have entry : after.entry = chain.entryBelow config.filter origin :=
    follows.1.trans stored.entry_eq
  split
  case isTrue complete =>
    have whole : origin = chain.head.number + 1 := by omega
    have ends := stored.last_eq
    rw [whole, getLast?_take_succ isHead] at ends
    rw [ends]
    apply Attains.done
    rw [entry, whole]
    exact ⟨rfl, rfl⟩
  case isFalse remaining =>
    have below : origin ≤ chain.head.number := by omega
    apply Attains.bind
    apply Attains.modify
    have ready : Follows chain after.entry { after with phase := .hotZone } :=
      ⟨rfl, follows.2⟩
    apply Attains.bind
    apply (attains_descend ready below enough).mono
    intro run later _ holds
    rcases run with ⟨oldest, newer⟩
    rcases holds with ⟨isDropped, rfl⟩
    have linked : (last.all fun last => oldest.parentHash == last.hash) = true := by
      cases isLast : last with
      | none => rfl
      | some last =>
          have ends := stored.last_eq
          rw [isLast] at ends
          have extending := extends_of_split ends.symm (by rw [← isDropped]; rfl)
          exact beq_iff_eq.mpr extending.2
    show (if _ then _ else _ : Routine (Session Entry) (Option Block)).Attains _ _ _ _
    rw [if_pos linked]
    apply Attains.bind
    apply (attains_logsOfBlocks (oldest :: newer)).mono
    intro logs later _ holds
    rcases holds with ⟨rfl, rfl⟩
    apply Attains.bind
    apply attains_apply
    · exact rfl
    apply Attains.done
    refine ⟨rfl, ?_⟩
    rw [← entryBelow_append_drop origin, ← entry, ← isDropped]
    rfl

/-! ## The whole -/

theorem attains_round {setup : Setup} {turns : Nat} (noStart : setup.config.startBlock = none)
    (noHints : setup.hasHints = false) (resumes : chain.CanResume setup.config session.entry)
    (identified : session.entry.identity = some chain.identity)
    (deep : setup.config.maxBlockBacklog ≤ session.follower.backlog)
    (fresh : session.follower.window.blocks = [])
    (enough : (chain.head.number + 2) * (setup.config.batchSize + 2) ≤ turns)
    (fits : Backfill.Fits setup.config) :
    (round setup turns).Attains chain.surroundings (fun reached after _ =>
      reached = some chain.head ∧
        after.entry = chain.entryBelow setup.config.filter (chain.head.number + 1))
      session () := by
  have steps : chain.head.number < turns := by
    have most : chain.head.number + 2 ≤
        (chain.head.number + 2) * (setup.config.batchSize + 2) :=
      Nat.le_mul_of_pos_right _ (Nat.succ_pos _)
    omega
  apply Attains.bind
  apply (attains_origin noStart noHints resumes identified deep).mono
  intro place after _ stored
  apply Attains.bind
  apply (attains_backfill stored enough fits).mono
  intro reached after _ holds
  rcases holds with ⟨state, rfl, progresses⟩
  exact attains_hotZone progresses.stored fresh steps

theorem attains_rounds {setup : Setup} {turns : Nat}
    (succeeds : (round setup turns).Attains chain.surroundings (fun reached after _ =>
      reached = some chain.head ∧
        after.entry = chain.entryBelow setup.config.filter (chain.head.number + 1))
      session ()) (left past : Nat) :
    (rounds setup turns left past).Attains chain.surroundings (fun block after _ =>
      block = chain.head ∧
        after.entry = chain.entryBelow setup.config.filter (chain.head.number + 1))
      session () := by
  cases left with
  | zero =>
      apply Attains.andThen succeeds
      intro reached after _ holds
      rcases holds with ⟨rfl, entry⟩
      exact .done ⟨rfl, entry⟩
  | succ left =>
      apply Attains.andThen succeeds
      intro reached after _ holds
      rcases holds with ⟨rfl, entry⟩
      exact .done ⟨rfl, entry⟩

/-- A new session over an entry. -/
def fresh (config : Config) (retryDelay : Nat) (capacity : Option Nat) (entry : Entry) :
    Session Entry where
  follower := .make config.maxBlockBacklog retryDelay capacity
  entry

/-- A synchronisation of a new session attains the head, with all that is on the chain. -/
theorem attains_sync (chain : StillChain) (setup : Setup) (retryDelay : Nat)
    (capacity : Option Nat) (turns : Nat) {entry : Entry}
    (noStart : setup.config.startBlock = none) (noHints : setup.hasHints = false)
    (resumes : chain.CanResume setup.config entry)
    (enough : (chain.head.number + 2) * (setup.config.batchSize + 2) ≤ turns)
    (fits : Backfill.Fits setup.config) :
    (sync setup turns).Attains chain.surroundings (fun block after _ =>
      block = chain.head ∧
        after.entry = chain.entryBelow setup.config.filter (chain.head.number + 1))
      (.fresh setup.config retryDelay capacity entry) () := by
  have caughtUp : (catchUp setup turns).Attains chain.surroundings (fun block after _ =>
      block = chain.head ∧
        after.entry = chain.entryBelow setup.config.filter (chain.head.number + 1))
      (.fresh setup.config retryDelay capacity entry) () := by
    apply Attains.bind
    apply (attains_identifyOnce rfl resumes.identity_eq).mono
    intro _ after _ holds
    have resumesThen : chain.CanResume setup.config after.entry := by
      rw [holds.1]
      exact {
        entryMatches := resumes.entryMatches
        identity_eq := fun recorded same => (Option.some.inj same).symm
        number_le := resumes.number_le
        leaves := resumes.leaves }
    apply attains_rounds
    apply attains_round noStart noHints resumesThen
    · rw [holds.1]
    · rw [holds.2]
      exact Nat.le_max_left _ _
    · rw [holds.2]
      rfl
    · exact enough
    · exact fits
  apply Attains.andThen (Attains.attempt caughtUp)
  intro outcome after _ holds
  rcases holds with ⟨block, rfl, holds⟩
  exact .done holds

/-- A synchronisation of a new session stores the whole chain, whatever sizes it was
given and whatever ranges are refused. -/
theorem sync_completes (chain : StillChain) (setup : Setup) (retryDelay : Nat)
    (capacity : Option Nat) (turns : Nat) {entry : Entry}
    (noStart : setup.config.startBlock = none) (noHints : setup.hasHints = false)
    (resumes : chain.CanResume setup.config entry)
    (enough : (chain.head.number + 2) * (setup.config.batchSize + 2) ≤ turns)
    (fits : Backfill.Fits setup.config) :
    ∃ after,
      (sync setup turns).run chain.surroundings (.fresh setup.config retryDelay capacity entry) () =
          (.value chain.head, after, ()) ∧
        after.entry = {
          logs := chain.tree.logsAlong setup.config.filter chain.blocks
          lastBlock := some chain.head
          identity := some chain.identity } := by
  rcases attains_sync chain setup retryDelay capacity turns noStart noHints resumes enough fits with
    ⟨block, after, later, run, rfl, stored⟩
  refine ⟨after, run, ?_⟩
  rw [stored, entryBelow_succ (BlockTree.self_mem_path chain.contains)]
  rfl

/-- An entry on the other branch of a fork, behind a node that answers ranges over one
height only. -/
theorem sync_completes_after_fork :
    let chain : StillChain := {
      tree := Fork.tree
      head := Fork.right 3
      contains := by decide +kernel
      chainId := 1
      limit := some 0
      refusal := "" }
    let setup : Setup := { config := { maxBlockBacklog := 1, batchSize := 1 } }
    let entry : Entry := (Session.endingAt Fork.tree setup.config (Fork.left 1)).entry
    ∃ after,
      (sync setup 15).run chain.surroundings (.fresh setup.config 500 none entry) () =
          (.value (Fork.right 3), after, ()) ∧
        after.entry = {
          logs := [Fork.root, Fork.right 1, Fork.right 2, Fork.right 3].map Fork.logOf
          lastBlock := some (Fork.right 3)
          identity := some ⟨1, "root"⟩ } := by
  intro chain setup entry
  have contains : Fork.tree.Contains (Fork.left 1) := by decide +kernel
  have resumes : chain.CanResume setup.config entry := {
    entryMatches := (isSound_endingAt contains).entry
    identity_eq := by
      intro recorded same
      cases same
    number_le := by
      intro last same
      cases same
      decide +kernel
    leaves := by
      intro last same
      cases same
      exact ⟨Fork.root, by decide +kernel, by decide +kernel, by decide +kernel⟩ }
  rcases sync_completes chain setup 500 none 15 rfl rfl resumes (by decide +kernel)
      (by decide) with
    ⟨after, run, stored⟩
  refine ⟨after, run, ?_⟩
  rw [stored]
  decide +kernel

/-! ## Interruptions

Synchronisations may be cut off anywhere and as often as one likes: the first that is not
ends as if it had been the only one. -/

variable {setup : Setup} {turns : Nat} {start : Session Entry} {retryDelay : Nat}
  {capacity : Option Nat}

/-- What is left of a session after synchronisations that were cut off anywhere, be it by
an error or by cancellation. -/
inductive Attempts (chain : StillChain) (setup : Setup) (start : Session Entry) :
    Session Entry → Prop
  | none : Attempts chain setup start start
  | cutOff {now : Session Entry} {turns : Nat} {cut : Situation (Session Entry) Unit Block}
      (earlier : Attempts chain setup start now)
      (reached : Situation.Reaches (chain.conduct True) ⟨sync setup turns, now, ()⟩ cut) :
      Attempts chain setup start cut.state
  /-- Between two of them, a new session may take over what is stored. -/
  | renewed {now : Session Entry} (retryDelay : Nat) (capacity : Option Nat)
      (earlier : Attempts chain setup start now) :
      Attempts chain setup start (.fresh setup.config retryDelay capacity now.entry)

theorem isAt_fresh (chain : StillChain) (config : Config) (retryDelay : Nat)
    (capacity : Option Nat) (entry : Entry) :
    (fresh config retryDelay capacity entry).follower.IsAt chain
      (max config.maxBlockBacklog 1) where
  backlog_eq := rfl
  onChain _ member := nomatch member
  head := .inl rfl

theorem OnCourse.refl (isAt : session.follower.IsAt chain (max config.maxBlockBacklog 1))
    (known : session.isIdentified = true → session.entry.identity = some chain.identity) :
    OnCourse chain config session session :=
  ⟨rfl, fun _ => ⟨rfl, rfl⟩, isAt, fun _ => rfl, known⟩

theorem onCourse_fresh (chain : StillChain) (config : Config) (retryDelay : Nat)
    (capacity : Option Nat) (entry : Entry) :
    OnCourse chain config (fresh config retryDelay capacity entry)
      (fresh config retryDelay capacity entry) :=
  .refl (isAt_fresh chain config retryDelay capacity entry) fun isIdentified => nomatch isIdentified

/-- Whatever was attempted, the same will become of the session. -/
theorem Attempts.onCourse {entry : Entry} {now : Session Entry} (noHints : setup.hasHints = false)
    (attempts : Attempts chain setup (.fresh setup.config retryDelay capacity entry) now) :
    OnCourse chain setup.config (.fresh setup.config retryDelay capacity entry) now := by
  induction attempts with
  | none => exact onCourse_fresh chain setup.config retryDelay capacity entry
  | cutOff _ reached induction =>
      -- The parts of a synchronisation keep the course at each of their steps, so it does
      -- not matter at which of them this one was cut off.
      have stable : Routine.Stable (chain.conduct True) fun session (_ : Unit) =>
          OnCourse chain setup.config (.fresh setup.config retryDelay capacity entry) session := by
        intro _ _ _ _ _ _ accepted onCourse
        rw [accepted.1]
        exact onCourse
      exact Routine.Keeps.preserved reached stable
        (tries_sync noHints induction (fun _ => trivial) (.inl trivial)) induction
  | renewed retryDelayThen capacityThen _ induction =>
      exact {
        completion_eq := induction.completion_eq
        unchanged := fun complete => ⟨(induction.unchanged complete).1, rfl⟩
        isAt := isAt_fresh chain setup.config retryDelayThen capacityThen _
        follower_eq := fun filled => nomatch filled
        known := fun isIdentified => nomatch isIdentified }

theorem OnCourse.completion?_eq {block : Block} (onCourse : OnCourse chain config start session)
    (isDone : IsDone chain block session) :
    chain.completion? config start.entry = some session.entry :=
  onCourse.completion_eq.symm.trans isDone.complete.completion?_eq

/-- Undisturbed, a session comes to what is to become of it, whatever else it might ask. -/
theorem exists_run_sync_in {surroundings : Surroundings (Session Entry) Unit} {entry : Entry}
    {block : Block} (follows : surroundings.Follows (chain.conduct False))
    (noHints : setup.hasHints = false)
    (enough : (chain.head.number + 2) * (setup.config.batchSize + 2) ≤ turns)
    (fits : Backfill.Fits setup.config)
    (onCourse : OnCourse chain setup.config start session)
    (completes : chain.completion? setup.config start.entry = some entry)
    (ends : entry.lastBlock = some block) :
    ∃ after, (sync setup turns).run surroundings session () = (.value block, after, ()) ∧
      after.entry = entry ∧ OnCourse chain setup.config start after ∧
        IsDone chain block after := by
  have fails : chain.completion? setup.config start.entry = none → False := by
    rw [completes]
    exact fun missing => nomatch missing
  rcases (tries_sync noHints onCourse fails (.inr ⟨enough, fits⟩)).exists_run follows with
    ⟨reached, after, run, onCourse, isDone⟩
  have same := onCourse.completion?_eq isDone
  rw [completes] at same
  cases same
  cases ends.symm.trans isDone.ends
  exact ⟨after, run, rfl, onCourse, isDone⟩

theorem exists_run_sync {entry : Entry} {block : Block} (noHints : setup.hasHints = false)
    (enough : (chain.head.number + 2) * (setup.config.batchSize + 2) ≤ turns)
    (fits : Backfill.Fits setup.config)
    (onCourse : OnCourse chain setup.config start session)
    (completes : chain.completion? setup.config start.entry = some entry)
    (ends : entry.lastBlock = some block) :
    ∃ after, (sync setup turns).run chain.surroundings session () = (.value block, after, ()) ∧
      after.entry = entry ∧ OnCourse chain setup.config start after ∧
        IsDone chain block after :=
  exists_run_sync_in (chain.surroundings_follows False) noHints enough fits onCourse completes ends

/-- A synchronisation after any attempts ends as it would have ended without them, and
then nothing is left to do. -/
theorem interrupted_sync_resumes (chain : StillChain) (setup : Setup) (turns : Nat)
    {entry : Entry} {block : Block} {goal now : Session Entry}
    (noHints : setup.hasHints = false)
    (enough : (chain.head.number + 2) * (setup.config.batchSize + 2) ≤ turns)
    (fits : Backfill.Fits setup.config)
    (alone : (sync setup turns).run chain.surroundings
      (.fresh setup.config retryDelay capacity entry) () = (.value block, goal, ()))
    (attempts : Attempts chain setup (.fresh setup.config retryDelay capacity entry) now) :
    ∃ after,
      (sync setup turns).run chain.surroundings now () = (.value block, after, ()) ∧
        after.entry = goal.entry ∧
        (∃ later, (sync setup turns).run chain.surroundings after () =
          (.value block, later, ()) ∧ later.entry = after.entry ∧
            later.events = after.events ∧ later.follower = after.follower) ∧
        ∀ retryDelay capacity, ∃ later, (sync setup turns).run chain.surroundings
          (.fresh setup.config retryDelay capacity after.entry) () = (.value block, later, ()) ∧
            later.entry = after.entry ∧ later.events = .unbounded := by
  have begun := onCourse_fresh chain setup.config retryDelay capacity entry
  -- That it comes to an end alone shows that the entry has a completion.
  have ended := Routine.Keeps.ends (tries_sync noHints begun (fun _ => trivial) (.inl trivial))
    (Routine.ends_run (chain.surroundings_follows True) (sync setup turns) _ ())
  rw [alone] at ended
  rcases ended with ⟨goalOnCourse, goalIsDone⟩
  rcases exists_run_sync noHints enough fits (attempts.onCourse noHints)
    (goalOnCourse.completion?_eq goalIsDone) goalIsDone.ends with
      ⟨after, run, entry, onCourse, isDone⟩
  have completes : chain.completion? setup.config after.entry = some after.entry :=
    isDone.complete.completion?_eq
  refine ⟨after, run, entry, ?_, ?_⟩
  · rcases exists_run_sync noHints enough fits (.refl onCourse.isAt onCourse.known) completes
      isDone.ends with ⟨later, run, entry, onCourse, -⟩
    exact ⟨later, run, entry, (onCourse.unchanged isDone.complete).2,
      onCourse.follower_eq isDone.isHead⟩
  · intro retryDelay capacity
    rcases exists_run_sync noHints enough fits
      (onCourse_fresh chain setup.config retryDelay capacity after.entry) completes
      isDone.ends with ⟨later, run, entry, onCourse, -⟩
    exact ⟨later, run, entry, (onCourse.unchanged isDone.complete).2⟩

/-- The node of a chain while some kind of log queries fails. -/
def failing (chain : StillChain) (fails : LogSelector → Bool) :
    Surroundings (Session Entry) Unit where
  answer
    | .cancelableNode (.logs query), session, () =>
        if fails query.selector then (some (.error (.transport "")), session, ())
        else chain.surroundings.answer (.cancelableNode (.logs query)) session ()
    | query, session, () => chain.surroundings.answer query session ()

theorem failing_follows (chain : StillChain) (fails : LogSelector → Bool) :
    (failing chain fails).Follows (chain.conduct True) := by
  intro query session _ answer after _ answered
  have calm := chain.surroundings_follows (σ := Session Entry) True query session () answer after ()
  rw [Surroundings.conduct, failing] at answered
  dsimp only at answered
  split at answered
  case h_1 logs session =>
    split at answered
    case isTrue =>
      cases answered
      exact ⟨rfl, .inr ⟨trivial, _, rfl⟩⟩
    case isFalse => exact calm answered
  case h_2 => exact calm answered

/-- A new session takes back a branch and then cannot fetch the first range; the next
stores it and then cannot fetch the logs of the block behind it. -/
theorem interrupted_sync_resumes_at_fork :
    let chain : StillChain := {
      tree := Fork.tree
      head := Fork.right 3
      contains := by decide +kernel
      chainId := 1
      limit := some 0
      refusal := "" }
    let setup : Setup := { config := { maxBlockBacklog := 2, batchSize := 1 } }
    let entry : Entry := (Session.endingAt Fork.tree setup.config (Fork.left 2)).entry
    let begun : Session Entry := .fresh setup.config 500 none entry
    let first := (sync setup 20).run (failing chain fun
      | .range _ _ => true
      | .blockHash _ => false) begun ()
    let second := (sync setup 20).run (failing chain fun
      | .range _ _ => false
      | .blockHash _ => true) (.fresh setup.config 500 none first.2.1.entry) ()
    first.2.1.entry.lastBlock = some Fork.root ∧
      second.2.1.entry.lastBlock = some (Fork.right 1) ∧
      Attempts chain setup begun second.2.1 ∧
      ∃ after, (sync setup 20).run chain.surroundings second.2.1 () =
        (.value (Fork.right 3), after, ()) ∧
          after.entry.logs =
            [Fork.root, Fork.right 1, Fork.right 2, Fork.right 3].map Fork.logOf := by
  intro chain setup entry begun first second
  have attempts : Attempts chain setup begun second.2.1 :=
    .cutOff (.renewed 500 none (.cutOff .none (Routine.ends_run (failing_follows chain _) _ _ _)))
      (Routine.ends_run (failing_follows chain _) _ _ _)
  generalize isRun : (sync setup 20).run chain.surroundings begun () = alone
  have ended : alone.1.value? = some (Fork.right 3) ∧ alone.2.1.entry.logs =
      [Fork.root, Fork.right 1, Fork.right 2, Fork.right 3].map Fork.logOf := by
    rw [← isRun]
    decide +kernel
  rcases alone with ⟨outcome, goal, ⟨⟩⟩
  have isValue : outcome = .value (Fork.right 3) := Outcome.eq_value ended.1
  rw [isValue] at isRun
  rcases interrupted_sync_resumes chain setup 20 rfl (by decide +kernel) (by decide) isRun
      attempts with
    ⟨after, run, same, -⟩
  refine ⟨by decide +kernel, by decide +kernel, attempts, after, run, ?_⟩
  rw [same]
  exact ended.2

/-- With a batch that may outgrow the words, what was stored before the cut is missed. Alone,
a synchronisation stores its first range with a batch that the node had halved until it
answered. After a cut it begins behind that range with the whole batch, the node answers what
is left, and behind that the batch leads out of the words. -/
theorem interrupted_sync_overflows_at_fork :
    let chain : StillChain := {
      tree := Fork.tree
      head := Fork.right 3
      contains := by decide +kernel
      chainId := 1
      limit := some 1
      refusal := "" }
    let setup : Setup := { config := Fork.overgrown }
    let begun : Session Entry := .fresh setup.config 500 none {}
    let alone := (sync setup 100).run chain.surroundings begun ()
    let cut := (sync setup 100).run (failing chain fun selector => selector == .range 2 2) begun ()
    alone.1 = .value (Fork.right 3) ∧
      alone.2.1.entry.logs =
        [Fork.root, Fork.right 1, Fork.right 2, Fork.right 3].map Fork.logOf ∧
      Attempts chain setup begun cut.2.1 ∧
      ((sync setup 100).run chain.surroundings cut.2.1 ()).1 =
        .halted (.overflow .addition) := by
  intro chain setup begun alone cut
  refine ⟨Outcome.eq_value (by decide +kernel), by decide +kernel, ?_, by decide +kernel⟩
  exact .cutOff .none (Routine.ends_run (failing_follows chain _) _ _ _)

end Session

end ReorgSync
