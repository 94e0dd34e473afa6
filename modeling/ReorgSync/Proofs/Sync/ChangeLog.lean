import ReorgSync.Proofs.Sync.Journal
import ReorgSync.Proofs.Sync.Jobs
import ReorgSync.Proofs.Sync.Work

namespace ReorgSync

/-! Whatever the node answers, the events of a session are the changes of its entry:
who follows them from any moment on has what is stored. -/

/-! ## Work that stores nothing -/

namespace Routine.OnlyWrites

open Session

variable {ε ω : Type} [EntryStore ε] [FaithfulStore ε] {session : Session ε} {world : ω}

/-- What only moves a session on changes neither what is stored nor what is published. -/
theorem leavesLedger {routine : Routine (Session ε) α}
    (only : OnlyMoves routine session) :
    routine.Quietly (Conduct.free besideLedger) besideLedger (fun _ _ _ => True) session world :=
  only.quietly fun _ _ _ moves => ⟨congrArg FaithfulStore.ledger moves.entry, moves.events⟩

/-- Work that only moves a session on, in front of work that stores. -/
theorem andJournals {first : Routine (Session ε) α}
    {second : α → Routine (Session ε) β} (only : OnlyMoves first session)
    (continues : ∀ value (after : Session ε) (later : ω), (second value).Journals none after later) :
    (first >>= second).Journals none session world :=
  Journals.after_quiet only.leavesLedger fun value after later _ _ => continues value after later

end Routine.OnlyWrites

namespace Session

open Routine (OnlyWrites Quietly Journals)

variable {ε ω : Type} [EntryStore ε] [FaithfulStore ε] {session : Session ε} {world : ω}
  {setup : Setup} {turns : Nat}

/-! ## What is stored -/

/-- An event that is exact is stored and published at once, or not at all. -/
theorem journals_apply {event : Event} (isExact : event.IsExact session.ledger) :
    (Session.apply event).Journals none session world := by
  rw [Session.apply, changeEntry, bind_assoc]
  apply Journals.readEntry
  intro stored applied
  exact ⟨some event, .store event isExact applied rfl, none, .publish event rfl rfl, rfl⟩

theorem journals_append {logs : List Log} {block : Block} :
    (Session.apply (.append logs block)).Journals none session world :=
  journals_apply (Event.isExact_append logs block session.ledger)

theorem scanBack_exact {entry : ε} {height index cut : Nat} {removed behind : List Log}
    (found : scanBack entry height index removed = .ok (cut, behind))
    (within : index ≤ (FaithfulStore.ledger entry).logs.length)
    (isBehind : removed = (FaithfulStore.ledger entry).logs.drop index) :
    cut ≤ (FaithfulStore.ledger entry).logs.length ∧
      behind = (FaithfulStore.ledger entry).logs.drop cut := by
  induction index generalizing removed with
  | zero =>
      cases found
      exact ⟨within, isBehind⟩
  | succ index induction =>
      rw [scanBack] at found
      cases read : EntryStore.log? entry index with
      | error error => simp [read, bind, Except.bind] at found
      | ok log? =>
          have isLog := FaithfulStore.log?_eq within read
          simp only [read, bind, Except.bind] at found
          cases log? with
          | none =>
              cases found
              exact ⟨within, isBehind⟩
          | some log =>
              dsimp only at found
              split at found
              · cases found
                exact ⟨within, isBehind⟩
              · apply induction found (Nat.le_of_succ_le within)
                rw [List.drop_eq_getElem_cons within, isBehind]
                rw [List.getElem?_eq_getElem within] at isLog
                rw [Option.some.inj isLog]

/-- What a rollback lists as removed is what its cut takes away. -/
theorem rollbackPoint_exact {entry : ε} {height cut : Nat} {removed : List Log}
    (found : rollbackPoint height entry = .ok (cut, removed)) :
    cut ≤ (FaithfulStore.ledger entry).logs.length ∧
      removed = (FaithfulStore.ledger entry).logs.drop cut := by
  rw [rollbackPoint] at found
  cases read : EntryStore.lastIndex entry with
  | error error => simp [read, bind, Except.bind] at found
  | ok count =>
      simp only [read, bind, Except.bind] at found
      rw [FaithfulStore.lastIndex_eq read] at found
      exact scanBack_exact found (Nat.le_refl _) (List.drop_length).symm

/-! ## Catching up -/

theorem Prepares.ledger_eq {before after : Session ε} (prepares : Prepares before after) :
    after.ledger = before.ledger := by
  rcases prepares.entry with same | ⟨identity, recorded⟩
  · exact congrArg FaithfulStore.ledger same
  · exact FaithfulStore.ledger_record recorded

theorem leavesLedger_identifyOnce :
    identifyOnce.Quietly (Conduct.free besideLedger) besideLedger (fun _ _ _ => True) session
      world :=
  onlyPrepares_identifyOnce.quietly fun _ _ _ prepares => ⟨prepares.ledger_eq, prepares.events⟩

theorem journals_reconcilePosition (last : Block) :
    (reconcilePosition last).Journals none session world := by
  refine (onlyWrites_call _).andJournals fun head after later => ?_
  split
  · exact rfl
  · refine (onlyWrites_blockAt _).andJournals fun canonical after later => ?_
    split
    · exact rfl
    · apply Journals.get_andThen
      refine (onlyWrites_commonAncestor last last canonical _ _).andJournals
        fun ancestor after later => ?_
      refine OnlyWrites.andJournals (.computes (.sum _ _)) fun above after later => ?_
      apply Journals.readEntry
      intro parts cut
      exact Journals.bind (journals_apply (rollbackPoint_exact cut)) fun _ _ _ => rfl

theorem journals_origin (setup : Setup) : (origin setup).Journals none session world := by
  apply Journals.readEntry
  intro last? _
  cases last? with
  | some last =>
      exact Journals.bind (journals_reconcilePosition last) fun _ _ _ =>
        OnlyWrites.andJournals (.computes (.sum _ _)) fun _ _ _ => rfl
  | none => exact (onlyWrites_start setup).andJournals fun _ _ _ => rfl

theorem journals_backfillRange (config : Config) (state : Backfill) (rangeEnd : Nat) :
    (backfillRange config state rangeEnd).Journals none session world := by
  refine (onlyWrites_reply _).andJournals fun reply after later => ?_
  rcases reply with _ | error | logs
  · exact rfl
  · show Routine.Journals none (ite _ _ _) after later
    split <;> exact rfl
  · refine (onlyWrites_blockAt _).andJournals fun block after later => ?_
    exact Journals.bind journals_append fun _ _ _ =>
      .computes (Backfill.computes_checkAdvance _ _ _ _)

theorem journals_backfill (config : Config) (origin : Nat) (last : Option Block) :
    (backfill config turns origin last).Journals none session world := by
  refine Journals.iterate (fun state session world => ?_) turns _
  refine OnlyWrites.andJournals .checkCanceled fun _ after later => ?_
  refine (onlyWrites_isSettled state).andJournals fun settled after later => ?_
  cases settled with
  | false => exact rfl
  | true =>
      apply Journals.get_andThen
      refine (onlyWrites_call _).andJournals fun head after later => ?_
      refine OnlyWrites.andJournals (.computes (Backfill.computes_checkNear _ _ _))
        fun isNear after later => ?_
      split
      · exact rfl
      · refine (onlyMoves_enter _).andJournals fun _ after later => ?_
        refine OnlyWrites.andJournals (.computes (Backfill.computes_checkEnd _ _ _))
          fun rangeEnd after later => ?_
        exact Journals.bind (journals_backfillRange config _ _) fun _ _ _ => rfl

theorem journals_hotZone (config : Config) (origin : Nat) (last : Option Block) :
    (hotZone config turns origin last).Journals none session world := by
  refine onlyMoves_refreshHead.andJournals fun head after later => ?_
  split
  · cases last <;> exact rfl
  · refine (onlyMoves_enter _).andJournals fun _ after later => ?_
    refine (onlyWrites_descend turns origin head).andJournals fun run after later => ?_
    dsimp only
    split
    · refine (onlyWrites_logsOfBlocks config _).andJournals fun logs after later => ?_
      exact Journals.bind journals_append fun _ _ _ => rfl
    · exact rfl

theorem journals_round : (round setup turns).Journals none session world := by
  refine Journals.bind (journals_origin setup) fun start after later => ?_
  refine Journals.bind (journals_backfill _ _ _) fun reached after later => ?_
  cases reached with
  | none => exact rfl
  | some reached => exact journals_hotZone _ _ _

theorem journals_rounds (left past : Nat) :
    (rounds setup turns left past).Journals none session world := by
  induction left generalizing past session world with
  | zero =>
      refine Journals.bind journals_round fun block after later => ?_
      cases block <;> exact rfl
  | succ left induction =>
      refine Journals.bind journals_round fun block after later => ?_
      cases block with
      | some block => exact rfl
      | none => exact OnlyWrites.andJournals .sleep fun _ _ _ => induction (past + 1)

theorem journals_catchUp : (catchUp setup turns).Journals none session world :=
  Journals.after_quiet leavesLedger_identifyOnce fun _ _ _ _ _ => journals_rounds _ 0

theorem journals_concluding {work : Routine (Session ε) α}
    (journals : work.Journals none session world) :
    (concluding work).Journals none session world := by
  refine Journals.bind (Journals.attempt journals) fun outcome after later => ?_
  cases outcome with
  | ok value => exact rfl
  | error error => exact (onlyMoves_enter _).andJournals fun _ _ _ => rfl

/-! ## Following -/

/-- What is to be taken back for a delta is read from what is stored. -/
theorem leavesLedger_baseOf (last : Block) (delta : Delta) :
    (baseOf last delta).Quietly (Conduct.free besideLedger) besideLedger (fun base? after _ =>
      ∀ base, base? = some base → ∀ added block,
        Event.IsExact ⟨added, base.removed, base.truncateTo, block⟩ after.ledger)
      session world := by
  have unchanged : ∀ base, some ({ number := last.number, hash := last.hash } : Base) = some base →
      ∀ added block,
        Event.IsExact ⟨added, base.removed, base.truncateTo, block⟩ session.ledger := by
    intro base same added block
    cases same
    exact rfl
  rw [baseOf.eq_def]
  split
  · exact .done unchanged
  · split
    · exact .done unchanged
    · split
      · show Quietly _ _ _ (Routine.ofExcept (rollbackPoint _ session.entry) >>= _) session world
        cases cut : rollbackPoint _ session.entry with
        | error error => exact .fail
        | ok parts =>
            apply Quietly.done
            intro base same added block
            cases same
            exact rollbackPoint_exact cut
      · split
        · exact .done unchanged
        · apply Quietly.done
          intro base same
          cases same

theorem journals_applyDelta (config : Config) (last : Block) (delta : Delta) :
    (applyDelta config last delta).Journals none session world := by
  apply Journals.after_quiet (leavesLedger_baseOf last delta)
  intro base? after later _ isExact
  cases base? with
  | none => exact rfl
  | some base =>
      dsimp only
      split
      · split
        · apply Journals.after_quiet (onlyWrites_logsOfBlocks config _).leavesLedger
          intro logs now late passed _
          refine Journals.bind (journals_apply ?_) fun _ _ _ => rfl
          rw [passed.1]
          exact isExact base rfl _ _
        · exact rfl
      · exact rfl

theorem journals_resume (position : Nat) :
    (resume setup turns position).Journals none session world :=
  Journals.bind journals_catchUp fun _ _ _ =>
    (onlyMoves_enter _).andJournals fun _ _ _ => rfl

theorem journals_liveStep (live : Live) :
    (liveStep setup turns live).Journals none session world := by
  apply Journals.get_andThen
  dsimp only
  split
  · exact Journals.bind (journals_resume _) fun _ _ _ => rfl
  · refine ⟨rfl, fun canceled after later _ => ?_⟩
    cases canceled <;> exact rfl
  · refine Journals.bind (journals_applyDelta _ _ _) fun step after later => ?_
    cases step with
    | applied newest => exact rfl
    | skipped => exact rfl
    | gap => exact Journals.bind (journals_resume _) fun _ _ _ => rfl

theorem journals_run : (run setup turns : Routine (Session ε) Unit).Journals none session world := by
  have follows : (follow setup turns : Routine (Session ε) Empty).Journals none session world := by
    apply Journals.get_andThen
    refine Journals.bind (journals_resume _) fun live after later => ?_
    exact Journals.iterate (fun live _ _ => journals_liveStep live) turns live
  refine Journals.bind (Journals.attempt (journals_concluding follows)) fun outcome _ _ => ?_
  cases outcome with
  | ok never => cases never
  | error error =>
      dsimp only
      split <;> exact rfl

/-! ## The change log -/

/-- A call of a session over any store. -/
def Job.call (setup : Setup) : Job → Routine (Session ε) Unit
  | .sync turns => do
      let _ ← Session.sync setup turns
  | .run turns => Session.run setup turns

/-- One call after the other, whatever becomes of the ones before. -/
def serve (setup : Setup) (jobs : List Job) : Routine (Session ε) Unit :=
  Routine.inTurn (jobs.map (Job.call setup))

theorem journals_serve (setup : Setup) (jobs : List Job) (session : Session ε) (world : ω) :
    (serve setup jobs).Journals none session world := by
  refine Journals.inTurn fun work member session world => ?_
  rcases List.mem_map.mp member with ⟨job, -, rfl⟩
  cases job with
  | sync turns =>
      exact Journals.bind (journals_concluding journals_catchUp) fun _ _ _ => rfl
  | run turns => exact journals_run

/-- Whoever subscribes to the events of a session at any time but between a store and its
publication, and hears all events since, can follow them from what was stored then to
what is stored now. Each event was stored with success where it stands among the others,
and what it lists as removed was cut off then. -/
theorem events_are_change_log (setup : Setup) (jobs : List Job) (session : Session ε)
    (world : ω) {opened now : Situation (Session ε) ω Unit} {heard : List Event} {position : Nat}
    (reached : Situation.Reaches (Conduct.free besideLedger) ⟨serve setup jobs, session, world⟩
      opened)
    (settled : ¬ opened.IsPublishing) (hears : Hears opened heard position now) :
    (position = now.state.events.tail →
      (¬ now.IsPublishing → opened.state.ledger.followAll heard = now.state.ledger) ∧
      (now.IsPublishing →
        ∃ event, (opened.state.ledger.followAll heard).follow event = now.state.ledger)) ∧
    ∀ front event back, heard = front ++ event :: back → WasStored opened now front event := by
  rcases (journals_serve setup jobs session world).reaches reached with ⟨before, journals⟩
  have none_pending : before = none := by
    by_contra isPending
    exact settled (journals.isPublishing_iff.mpr isPending)
  subst none_pending
  rcases hears.logged journals with ⟨events, pending, logged, ⟨rest, rfl⟩, stands⟩
  refine ⟨fun caughtUp => ?_, ?_⟩
  · have published := Feed.published_publishAll opened.state.events (heard ++ rest)
    rw [← logged.published, List.length_append] at published
    have all : rest = [] := by
      rw [← List.length_eq_zero_iff]
      rw [Feed.tail] at caughtUp
      omega
    subst all
    have ledger := logged.ledger
    rw [List.append_nil] at ledger
    rw [logged.journals.isPublishing_iff]
    cases pending with
    | none =>
        rw [Option.toList_none, List.append_nil] at ledger
        exact ⟨fun _ => ledger.symm, fun never => absurd rfl never⟩
    | some event =>
        rw [Option.toList_some, Ledger.followAll_concat] at ledger
        exact ⟨fun never => absurd nofun never, fun _ => ⟨event, ledger.symm⟩⟩
  · intro front event back split
    apply logged.stored front event (back ++ rest ++ pending.toList)
    rw [split]
    simp

/-- Calm surroundings do nothing to an entry. -/
theorem calm_follows_besideLedger
    (reply : Session ε → ω → (call : Node.Call) → call.Reply) (next : ω → Query → ω) :
    (Surroundings.calm reply next).Follows (Conduct.free besideLedger) := by
  intro query session world answer after later answered
  cases answered
  exact ⟨rfl, rfl⟩

end Session

/-! An entry on the left branch of a fork goes over to the right one: two logs are taken
back, one block is stored by a range, and two are stored by their hashes. -/

namespace Fork

def crossing : List Event :=
  [{ added := [], removed := [logOf (left 1), logOf (left 2)], truncateTo := some 1, block := root },
   .append [logOf (right 1)] (right 1),
   .append [logOf (right 2), logOf (right 3)] (right 3)]

end Fork

theorem Session.events_are_change_log_at_fork :
    let setup : Setup := { config := { maxBlockBacklog := 2 } }
    let session := Session.endingAt Fork.tree setup.config (Fork.left 2)
    let opened : Situation (Session Entry) Nat Unit := ⟨serve setup [.sync 20], session, 0⟩
    let ended := (serve setup [.sync 20]).run (.scripted Fork.tree fun _ => Fork.right 3) session 0
    let now : Situation (Session Entry) Nat Unit := ⟨.done (), ended.2.1, ended.2.2⟩
    Hears opened Fork.crossing 3 now ∧
      session.ledger.followAll Fork.crossing = ended.2.1.ledger ∧
      ended.2.1.entry.lastBlock = some (Fork.right 3) := by
  intro setup session opened ended now
  have follows : (Surroundings.scripted Fork.tree fun _ => Fork.right 3).Follows
      (Conduct.free (besideLedger (ε := Entry))) :=
    calm_follows_besideLedger _ _
  have isRun : (serve setup [.sync 20]).run (.scripted Fork.tree fun _ => Fork.right 3) session 0 =
    ended := rfl
  clear_value ended
  have facts : ended.1.value? = some () ∧
      (∀ index (within : index < Fork.crossing.length),
        ended.2.1.events.find (0 + index) = .item Fork.crossing[index]) ∧
      3 = ended.2.1.events.tail ∧ ended.2.1.entry.lastBlock = some (Fork.right 3) := by
    rw [← isRun]
    decide +kernel
  have reached := Routine.ends_run follows (serve setup [.sync 20]) session 0
  rw [isRun, Outcome.eq_value facts.1] at reached
  have hears : Hears opened Fork.crossing 3 now :=
    (Hears.subscribed.wait reached).items facts.2.1
  have settled : ¬ opened.IsPublishing := by
    rw [(journals_serve setup [.sync 20] session 0).isPublishing_iff]
    exact absurd rfl
  have log := events_are_change_log setup [.sync 20] session 0 .refl settled hears
  have rests : ¬ now.IsPublishing := by
    rintro ⟨changed, isNext, -⟩
    cases isNext
  exact ⟨hears, (log.1 facts.2.2.1).1 rests, facts.2.2.2⟩

end ReorgSync
