import ReorgSync.Proofs.Sync.Catchup
import ReorgSync.Sync.Live

namespace ReorgSync

/-! A session may synchronise and follow the chain again and again, and each time
it may be canceled or fail. What is stored matches at every moment, unless the block that the
entry ends at is displaced between the check of the position and the first range behind it. -/

theorem Feed.mem_recent_of_find {feed : Feed α} {position : Nat} {item : α}
    (found : feed.find position = .item item) : item ∈ feed.recent := by
  have isRecent : feed.recent[feed.lag position - 1]? = some item := by
    cases isItem : feed.recent[feed.lag position - 1]? with
    | none => grind [Feed.find]
    | some other => grind [Feed.find]
  exact List.mem_of_getElem? isRecent

/-- The block that an entry ends at after a step. -/
def LiveStep.lastAfter (last : Block) : LiveStep → Block
  | .applied newest => newest
  | .skipped => last
  | .gap => last

namespace Session

open Routine (Quietly)

variable {tree : BlockTree} {filter : Filter} {headOf : ω → Block} {backlog : Nat}
  {notes : ω → List Note} {barred : ω → Prop} {session after : Session Entry} {world later : ω}
  {last : Block} {setup : Setup} {turns : Nat}

/-! ## The live loop -/

theorem continuesSoundly_applyDelta {config : Config} {delta : Delta}
    (ready : session.IsReady tree config.filter backlog)
    (ends : session.entry.lastBlock = some last) (honest : delta.IsHonest tree) :
    ContinuesSoundly tree config.filter headOf backlog notes barred (fun step after _ =>
      after.entry.lastBlock = some (step.lastAfter last)) (applyDelta config last delta) session
      world := by
  have matched := (Entry.matches_of_lastBlock ends).mp ready.entry
  have keeps : (applyDelta config last delta).Keeps
      ((Movement.shallow tree headOf backlog).conduct tree)
      ((Movement.shallow tree headOf backlog).soundly tree config.filter session world)
      (Outcome.Meets (Took tree config.filter
          ((Movement.shallow tree headOf backlog).besideStore tree) session world last delta)
        ((Movement.shallow tree headOf backlog).soundly tree config.filter session world))
      session world := by
    apply keeps_applyDelta (IsPassing.refl session world)
      (fun _ _ passed => passed.1) _ _ matched.1 matched.2 honest
    · intro now after later passed follower entryMatches
      refine ⟨fun _ => entryMatches, ?_⟩
      rw [follower]
      exact passed.2
    · intro blocks
      exact (storesNothing_logsOfBlocks config blocks).keeps
        (fun _ _ => Movement.soundly_of_besideStore) fun _ _ => Movement.soundly_of_besideStore
  refine continuesSoundly_of_soundly (keeps.weaken ?_ fun _ _ holds => holds)
  intro step after later holds
  cases step with
  | applied newest =>
      rcases holds with ⟨-, stores, now, passed, follower⟩
      refine ⟨⟨fun _ => stores.entryMatches, ?_⟩, stores.ends⟩
      rw [follower]
      exact passed.2
  | skipped =>
      have same : after.entry.lastBlock = some last := by
        rw [holds.1.1.1]
        exact ends
      exact ⟨Movement.soundly_of_besideStore holds.1, same⟩
  | gap =>
      have same : after.entry.lastBlock = some last := by
        rw [holds.1.1]
        exact ends
      exact ⟨Movement.soundly_of_besideStore holds, same⟩

theorem staysOnPath_resume (position : Nat)
    (steady : session.IsSteady tree setup.config.filter backlog (notes world))
    (noStart : setup.config.startBlock = none) (noHints : setup.hasHints = false) :
    StaysOnPath tree setup.config.filter headOf backlog notes
      (fun live after _ => after.entry.lastBlock = some live.last)
      (resume setup turns position) session world := by
  apply Quietly.andThen (staysOnPath_catchUp steady noStart noHints)
  intro last after later _ ends
  apply Quietly.andThen (continuesSoundly_enter .live)
  intro _ entered late _ same
  apply Quietly.done
  rw [same]
  exact ends

theorem staysOnPath_liveStep {live : Live}
    (steady : session.IsSteady tree setup.config.filter backlog (notes world))
    (ends : session.entry.lastBlock = some live.last)
    (noStart : setup.config.startBlock = none) (noHints : setup.hasHints = false) :
    StaysOnPath tree setup.config.filter headOf backlog notes (fun turn after _ =>
      ∀ live, turn = .inl live → after.entry.lastBlock = some live.last)
      (liveStep setup turns live) session world := by
  have resumes : ∀ (position : Nat) (now : Session Entry) (late : ω),
      now.IsSteady tree setup.config.filter backlog (notes late) →
        StaysOnPath tree setup.config.filter headOf backlog notes (fun turn after _ =>
          ∀ live, turn = .inl live → after.entry.lastBlock = some live.last)
          (resume setup turns position >>= fun live => pure (.inl live : Live ⊕ Empty)) now
          late := by
    intro position now late steady
    apply Quietly.andThen (staysOnPath_resume position steady noStart noHints)
    intro live after later _ ends
    apply Quietly.done
    intro _ same
    cases same
    exact ends
  apply Quietly.get_andThen
  cases found : session.follower.deltas.find live.position with
  | lost => exact resumes _ session world steady
  | nothing =>
      apply Quietly.ask
      intro canceled after later accepted
      cases canceled with
      | true => exact .fail
      | false =>
          apply Quietly.done
          intro _ same
          cases same
          have kept : (Movement.shallow tree headOf backlog).besideStore tree session world after
              later := ((Movement.shallow tree headOf backlog).conduct tree).asked accepted.1.1
          rw [kept.1.1]
          exact ends
  | item delta =>
      have honest := steady.follower.deltas delta (Feed.mem_recent_of_find found)
      apply Quietly.andThen (continuesSoundly_applyDelta steady.toIsReady ends honest)
      intro step after later passed holds
      cases step with
      | applied newest =>
          apply Quietly.done
          intro _ same
          cases same
          exact holds
      | skipped =>
          apply Quietly.done
          intro _ same
          cases same
          exact holds
      | gap => exact resumes _ after later (steady.passed passed)

theorem staysOnPath_run (steady : session.IsSteady tree setup.config.filter backlog (notes world))
    (noStart : setup.config.startBlock = none) (noHints : setup.hasHints = false) :
    StaysOnPath tree setup.config.filter headOf backlog notes (fun _ _ _ => True)
      (run setup turns) session world := by
  have follows : StaysOnPath tree setup.config.filter headOf backlog notes (fun _ _ _ => True)
      (follow setup turns) session world := by
    apply Quietly.get_andThen
    apply Quietly.andThen (staysOnPath_resume _ steady noStart noHints)
    intro live after later passed ends
    refine Quietly.iterate (fun live after later =>
      after.entry.lastBlock = some live.last ∧
        after.IsSteady tree setup.config.filter backlog (notes later))
      ?_ turns live ⟨ends, steady.passed passed⟩
    intro live session world holds
    rcases holds with ⟨ends, steady⟩
    apply (staysOnPath_liveStep steady ends noStart noHints).mono
    intro turn after later passed holds
    cases turn with
    | inl live => exact ⟨holds live rfl, steady.passed passed⟩
    | inr never => exact trivial
  apply Quietly.andThen (.attempt (continuesSoundly_concluding follows))
  intro outcome after later _ _
  cases outcome with
  | ok never => cases never
  | error error =>
      dsimp only
      split
      · exact .done trivial
      · exact .fail

/-! ## Jobs -/

/-- Work that a session is started for. -/
inductive Job where
  | sync (turns : Nat)
  | run (turns : Nat)

def Job.work (setup : Setup) : Job → Routine (Session Entry) Unit
  | .sync turns => do
      let _ ← Session.sync setup turns
  | .run turns => Session.run setup turns

/-- One job after the other, whether or not the ones before succeeded. -/
def perform (setup : Setup) : List Job → Routine (Session Entry) Unit
  | [] => return ()
  | job :: rest => do
      let _ ← (job.work setup).attempt
      perform setup rest

theorem staysOnPath_work (job : Job)
    (steady : session.IsSteady tree setup.config.filter backlog (notes world))
    (noStart : setup.config.startBlock = none) (noHints : setup.hasHints = false) :
    StaysOnPath tree setup.config.filter headOf backlog notes (fun _ _ _ => True)
      (job.work setup) session world := by
  cases job with
  | sync turns =>
      apply Quietly.andThen
        (continuesSoundly_concluding (staysOnPath_catchUp steady noStart noHints))
      exact fun _ after later _ _ => .done trivial
  | run turns => exact staysOnPath_run steady noStart noHints

theorem staysOnPath_perform (jobs : List Job)
    (steady : session.IsSteady tree setup.config.filter backlog (notes world))
    (noStart : setup.config.startBlock = none) (noHints : setup.hasHints = false) :
    StaysOnPath tree setup.config.filter headOf backlog notes (fun _ _ _ => True)
      (perform setup jobs) session world := by
  induction jobs generalizing session world with
  | nil => exact .done trivial
  | cons job rest induction =>
      apply Quietly.andThen (.attempt (staysOnPath_work job steady noStart noHints))
      intro _ after later passed _
      exact induction (steady.passed passed)

/-! ## At every moment -/

theorem isDisplaced_remains :
    Routine.Stable ((Movement.shallow tree headOf backlog).noting tree notes)
      fun (_ : Session Entry) world => IsDisplaced tree filter backlog (notes world) := by
  intro query session world answer after later accepted displaced
  exact displaced.mono ⟨_, accepted.2.symm⟩

/-- As long as a backfill is not misled by the first of its ranges, the entry matches. -/
theorem matches_unless_misled {config : Config} {origin : Nat} {last? : Option Block}
    {now : Situation (Session Entry) ω (Option Backfill)}
    (ready : session.IsReady tree config.filter backlog)
    (ends : session.entry.lastBlock = last?) (isOrigin : origin = last?.elim 0 (·.number + 1))
    (reached : Situation.Reaches ((Movement.shallow tree headOf backlog).noting tree notes)
      ⟨backfill config turns origin last?, session, world⟩ now) :
    session.entry.IsMisled tree config.filter backlog (headOf world) (notes world)
        (notes now.world) ∨
      now.state.entry.Matches tree config.filter := by
  have quietly : ContinuesSoundly tree config.filter headOf backlog notes
      (fun later => session.entry.IsMisled tree config.filter backlog (headOf world) (notes world)
        (notes later)) (fun reached after _ => ∀ state, reached = some state →
          state.StandsAt after.entry) (backfill config turns origin last?) session world := by
    refine continuesSoundly_backfill ends isOrigin ready.entry ready.deep ?_ fun _ misled => misled
    rintro ⟨final, ranged, block, named, isPrefix, -⟩
    have longer := isPrefix.length_le
    rw [List.length_append, Note.ofRange, List.length_cons] at longer
    omega
  refine (quietly.reaches_unless ?_ reached).imp_right fun passed => passed.1 ready.entry
  rintro query _ _ answer _ later accepted ⟨final, ranged, block, named, isPrefix, misled⟩
  exact ⟨final, ranged, block, named, isPrefix.trans ⟨_, accepted.2.symm⟩, misled⟩

/-- A range that is stored leaves the entry matching exactly if the chain that answered it
continues the entry. -/
theorem matches_iff_continued {config : Config} {state : Backfill} {rangeEnd : Nat}
    {outcome : Outcome Backfill} (entryMatches : session.entry.Matches tree config.filter)
    (stands : state.StandsAt session.entry) (ordered : state.origin ≤ rangeEnd)
    (settled : rangeEnd + backlog ≤ (headOf world).number)
    (ended : (backfillRange config state rangeEnd).Ends
      ((Movement.shallow tree headOf backlog).noting tree notes) session world outcome after
        later) :
    after.entry = session.entry ∨ ∃ ranged block,
      notes later = notes world ++
        Note.ofRange state.origin rangeEnd ranged block (headOf later) ∧
      (after.entry.Matches tree config.filter ↔
        session.entry.IsContinuedBy tree config.filter ranged) := by
  let ends (after : Session Entry) (later : ω) : Prop :=
    after.entry = session.entry ∨ ∃ ranged block,
      notes later = notes world ++
        Note.ofRange state.origin rangeEnd ranged block (headOf later) ∧
      (after.entry.Matches tree config.filter ↔
        session.entry.IsContinuedBy tree config.filter ranged)
  have keeps : (backfillRange config state rangeEnd).Keeps
      (((Movement.shallow tree headOf backlog).noting tree notes).barring fun _ => False)
      (fun _ _ => True) (Outcome.Meets (fun _ => ends) ends) session world := by
    apply keeps_backfillRange stands entryMatches ordered settled
    · exact fun after later passed => ⟨trivial, .inl passed.1.1.1⟩
    · exact fun after later passed _ => .inl passed.1.1.1
    · intro now late ranged block passed noted _ _ _ _ stored exactly _ _
      have holds : ends stored late := .inr ⟨ranged, block, noted, exactly⟩
      exact ⟨trivial, holds, holds⟩
  have keepsAll := Routine.Keeps.mono_conduct keeps fun _ _ _ _ _ _
    (accepted : (Movement.shallow tree headOf backlog).noting tree notes _ _ _ _ _ _) =>
      ⟨accepted, not_false⟩
  have holds := keepsAll.ends ended
  cases outcome <;> exact holds

/-- At every moment of any sequence of jobs the stored logs are those of the path, unless a
stored block was displaced where a round began: it was on the chain when that was looked up, but
not settled yet, and the chain that answered the range behind it has other logs up to there.
So within one backfill only the first range can lead off the path. Any range leaves the entry
matching exactly if the chain that answered it continues the entry. -/
theorem stored_logs_match_unless_displaced (setup : Setup) (headOf : ω → Block)
    (notes : ω → List Note) (world : ω)
    (ready : session.IsReady tree setup.config.filter backlog) (fresh : notes world = [])
    (noStart : setup.config.startBlock = none) (noHints : setup.hasHints = false) :
    let conduct := (Movement.shallow tree headOf backlog).noting tree notes
    (∀ jobs now, Situation.Reaches conduct ⟨perform setup jobs, session, world⟩ now →
      IsDisplaced tree setup.config.filter backlog (notes now.world) ∨
        now.state.entry.Matches tree setup.config.filter) ∧
    (∀ (before : Session Entry) (early : ω), before.IsReady tree setup.config.filter backlog →
      ∀ turns now, Situation.Reaches conduct ⟨backfill setup.config turns
          (before.entry.lastBlock.elim 0 (·.number + 1)) before.entry.lastBlock, before, early⟩ now →
        before.entry.IsMisled tree setup.config.filter backlog (headOf early) (notes early)
            (notes now.world) ∨
          now.state.entry.Matches tree setup.config.filter) ∧
    ∀ (state : Backfill) (rangeEnd : Nat) (before : Session Entry) (early : ω),
      before.entry.Matches tree setup.config.filter → state.StandsAt before.entry →
      state.origin ≤ rangeEnd → rangeEnd + backlog ≤ (headOf early).number →
      ∀ outcome after later,
        (backfillRange setup.config state rangeEnd).Ends conduct before early outcome after later →
        after.entry = before.entry ∨ ∃ ranged block,
          notes later = notes early ++
            Note.ofRange state.origin rangeEnd ranged block (headOf later) ∧
          (after.entry.Matches tree setup.config.filter ↔
            before.entry.IsContinuedBy tree setup.config.filter ranged) := by
  intro conduct
  refine ⟨fun jobs now reached => ?_, fun before early ready turns now => ?_, ?_⟩
  · have notYet : ¬ IsDisplaced tree setup.config.filter backlog (notes world) := by
      rw [fresh]
      rintro ⟨displacement, isNoted⟩
      cases List.eq_nil_of_infix_nil isNoted.inRow
    have quietly : StaysOnPath tree setup.config.filter headOf backlog notes _
        (perform setup jobs) session world :=
      staysOnPath_perform jobs ⟨ready, notYet⟩ noStart noHints
    exact (quietly.reaches_unless isDisplaced_remains reached).imp_right fun passed =>
      passed.1 ready.entry
  · exact matches_unless_misled ready rfl rfl
  · intro state rangeEnd before early entryMatches stands ordered settled outcome after later
    exact matches_iff_continued entryMatches stands ordered settled

end Session

/-! Two branches whose heads are as far apart as a shallow reorganisation may be. -/

namespace Fork

/-- The head leaves the one branch for the other at some time. -/
def headAt (time : Nat) : Nat → Block :=
  switch time (left 1) (right 3)

theorem shallow_moves (time now : Nat) :
    (Movement.shallow tree (headAt time) 1).moves now (now + 1) := by
  have across : (Movement.shallow tree id 1).moves (left 1) (right 3) := by
    refine ⟨by decide +kernel, fun height below => ?_⟩
    have zero : height = 0 := by
      have : height + 1 ≤ 1 := below
      omega
    rw [zero]
    decide +kernel
  exact shallow_switch across time now

theorem contains_headAt (time now : Nat) : tree.Contains (headAt time now) :=
  contains_switch (by decide +kernel) (by decide +kernel) now

def setup : Setup :=
  { config := { maxBlockBacklog := 1 } }

/-- A new session over an empty entry. -/
def session : Session Entry where
  follower := .make 1 0 none
  entry := {}

/-- The world takes notes while the head moves so. -/
theorem noting_follows (time : Nat) :
    ((Surroundings.scripted tree (headAt time)).noting (headAt time)).Follows
      ((Movement.shallow tree (fun world => headAt time world.1) 1).noting tree Prod.snd) :=
  Surroundings.noting_follows (tree.scripted_follows (Movement.shallow tree (headAt time) 1)
    (contains_headAt time) (shallow_moves time))

end Fork

namespace Session

/-- A first synchronisation asks for no range behind a stored block. In the second one the
chain moves after the check of the position, and the notes tell so. -/
theorem stored_logs_match_unless_displaced_at_fork :
    let noting := (Surroundings.scripted Fork.tree (Fork.headAt 34)).noting (Fork.headAt 34)
    let once := (perform Fork.setup [.sync 10]).run noting Fork.session (0, [])
    let twice := (perform Fork.setup [.sync 10, .sync 10]).run noting Fork.session (0, [])
    once.2.1.entry.lastBlock = some (Fork.left 1) ∧ once.2.1.entry.Matches Fork.tree {} ∧
      twice.2.1.entry.lastBlock = some (Fork.right 3) ∧ IsDisplaced Fork.tree {} 1 twice.2.2.2 := by
  intro noting once twice
  have ready : Fork.session.IsReady Fork.tree Fork.setup.config.filter 1 :=
    { entry := (Entry.matches_of_no_lastBlock rfl).mpr rfl
      follower := Follower.isHonest_make Fork.tree 1 0 none
      deep := Nat.le_refl 1 }
  have moments := (stored_logs_match_unless_displaced Fork.setup
    (fun world : Nat × List Note => Fork.headAt 34 world.1) Prod.snd (0, []) ready rfl rfl rfl).1
  have first := moments _ _ (Routine.ends_run (Fork.noting_follows 34)
    (perform Fork.setup [.sync 10]) Fork.session (0, []))
  have second := moments _ _ (Routine.ends_run (Fork.noting_follows 34)
    (perform Fork.setup [.sync 10, .sync 10]) Fork.session (0, []))
  refine ⟨by decide +kernel, first.resolve_left ?_, by decide +kernel, second.resolve_right ?_⟩
  · have atStart : once.2.2.2.all (fun
        | .range first _ _ => first == 0
        | .block .. => true) = true := by decide +kernel
    rintro ⟨displacement, isNoted⟩
    have isRange := isNoted.inRow.subset (List.mem_cons_of_mem _ List.mem_cons_self)
    have isStart := List.all_eq_true.mp atStart _ isRange
    cases beq_iff_eq.mp isStart
  · intro entryMatches
    have ends : twice.2.1.entry.lastBlock = some (Fork.right 3) := by decide +kernel
    have logs := ((Entry.matches_of_lastBlock ends).mp entryMatches).2
    revert logs
    decide +kernel

/-- The entry then holds logs of both branches. -/
theorem stored_logs_leave_path_at_fork :
    ∃ outcome after later, (perform Fork.setup [.sync 10, .sync 10]).Ends
      ((Movement.shallow Fork.tree (Fork.headAt 34) 1).conduct Fork.tree) Fork.session 0 outcome
        after later ∧ ¬ after.entry.Matches Fork.tree {} := by
  have follows := Fork.tree.scripted_follows (ε := Entry)
    (Movement.shallow Fork.tree (Fork.headAt 34) 1) (Fork.contains_headAt 34)
    (Fork.shallow_moves 34)
  refine ⟨_, _, _, Routine.ends_run follows _ _ _, fun entryMatches => ?_⟩
  have ends : ((perform Fork.setup [.sync 10, .sync 10]).run
      (.scripted Fork.tree (Fork.headAt 34)) Fork.session 0).2.1.entry.lastBlock =
        some (Fork.right 3) := by
    decide +kernel
  have logs := ((Entry.matches_of_lastBlock ends).mp entryMatches).2
  revert logs
  decide +kernel

end Session

end ReorgSync
