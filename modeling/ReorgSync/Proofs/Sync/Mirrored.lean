import ReorgSync.Proofs.Routine.Mirrors
import ReorgSync.Proofs.Store.Opened
import ReorgSync.Proofs.Sync.ChangeLog
import ReorgSync.Proofs.Sync.Complete

namespace ReorgSync

/-! A session over a store that does as memory does goes the way of a session in memory. So
what is known of sessions in memory is true of sessions over tables, as long as the entry
has room there. -/

namespace Session

open Routine (Mirrors)

variable {ε : Type} [EntryStore ε] [MirroringStore ε]

/-- The same session on what is shown of its entry. -/
def shown (session : Session ε) : Session Entry where
  follower := session.follower
  entry := MirroringStore.shown session.entry
  events := session.events
  phase := session.phase
  isIdentified := session.isIdentified

/-- A session whose entry can be used shows the other one. -/
def Shows (session : Session ε) (other : Session Entry) : Prop :=
  MirroringStore.IsOpen session.entry ∧ session.shown = other

/-- Work over a store is the same work in memory, as long as the entry there has room in
the store. -/
abbrev IsMirrored (routine : Routine (Session ε) α) (other : Routine (Session Entry) α) : Prop :=
  routine.Mirrors Shows (fun session => MirroringStore.HasRoom (ε := ε) session.entry) other

/-! ## The entry -/

theorem isMirrored_readEntry {read : ε → Except SyncError α} {other : Entry → Except SyncError α}
    (same : ∀ entry : ε, MirroringStore.IsOpen entry →
      read entry = other (MirroringStore.shown entry)) :
    IsMirrored (readEntry read) (readEntry other) := by
  apply Mirrors.read
  intro session _ shows
  rcases shows with ⟨isOpen, rfl⟩
  change IsMirrored (Routine.ofExcept (read session.entry)) (Routine.ofExcept (other _))
  rw [same session.entry isOpen]
  exact .ofExcept _

/-- A change is mirrored if it comes to what the change in memory comes to, where that has
room. -/
theorem isMirrored_changeEntry {change : ε → Except SyncError ε}
    {other : Entry → Except SyncError Entry}
    (changes : ∀ (entry : ε) next, MirroringStore.IsOpen entry →
      other (MirroringStore.shown entry) = .ok next → MirroringStore.HasRoom (ε := ε) next →
        ∃ after, change entry = .ok after ∧ MirroringStore.IsOpen after ∧
          MirroringStore.shown after = next)
    (refuses : ∀ (entry : ε) error, MirroringStore.IsOpen entry →
      other (MirroringStore.shown entry) = .error error → change entry = .error error) :
    IsMirrored (changeEntry change) (changeEntry other) := by
  apply Mirrors.read
  intro session _ shows
  rcases shows with ⟨isOpen, rfl⟩
  change IsMirrored (Routine.ofExcept (change session.entry) >>= _)
    (Routine.ofExcept (other (MirroringStore.shown session.entry)) >>= _)
  cases changed : other (MirroringStore.shown session.entry) with
  | error error =>
      rw [refuses session.entry error isOpen changed]
      exact .fail error
  | ok next =>
      by_cases room : MirroringStore.HasRoom (ε := ε) next
      · rcases changes session.entry next isOpen changed room with ⟨after, stored, isOpenThen, rfl⟩
        rw [stored]
        apply Mirrors.modify
        intro before _ shows
        rcases shows with ⟨-, rfl⟩
        exact ⟨isOpenThen, rfl⟩
      · exact .outgrown (.read fun _ => .write room)

theorem isMirrored_apply (event : Event) :
    IsMirrored (apply event : Routine (Session ε) Unit) (apply event) := by
  have stores : IsMirrored (changeEntry fun entry : ε => EntryStore.apply entry event)
      (changeEntry fun entry : Entry => EntryStore.apply entry event) := by
    apply isMirrored_changeEntry
    · intro entry next isOpen applied room
      rw [Entry.apply_eq] at applied
      exact MirroringStore.apply_eq isOpen applied room
    · intro entry error isOpen refused
      rw [Entry.apply_eq] at refused
      exact MirroringStore.apply_error isOpen refused
  apply stores.andThen
  intro _
  apply Mirrors.modify
  intro session _ shows
  rcases shows with ⟨isOpen, rfl⟩
  exact ⟨isOpen, rfl⟩

theorem scanBack_shown {entry : ε} (isOpen : MirroringStore.IsOpen entry) (height : Nat)
    {index : Nat} (within : index ≤ (MirroringStore.shown entry).logs.length)
    (removed : List Log) :
    scanBack entry height index removed =
      scanBack (MirroringStore.shown entry) height index removed := by
  induction index generalizing removed with
  | zero => rfl
  | succ index induction =>
      rw [scanBack, scanBack, MirroringStore.log?_eq isOpen within]
      change _ = (Except.ok (MirroringStore.shown entry).logs[index]? >>= _)
      cases (MirroringStore.shown entry).logs[index]? with
      | none => rfl
      | some log =>
          change ite _ _ _ = ite _ _ _
          rw [induction (Nat.le_of_succ_le within)]

theorem isMirrored_rollbackPoint (height : Nat) :
    IsMirrored (readEntry (rollbackPoint height) : Routine (Session ε) (Nat × List Log))
      (readEntry (rollbackPoint height)) := by
  apply isMirrored_readEntry
  intro entry isOpen
  rw [rollbackPoint, MirroringStore.lastIndex_eq isOpen]
  exact scanBack_shown isOpen height (Nat.le_refl _) []

/-! ## The follower and the node -/

theorem isMirrored_enter (phase : Phase) :
    IsMirrored (enter phase : Routine (Session ε) Unit) (enter phase) := by
  apply Mirrors.modify
  intro session _ shows
  rcases shows with ⟨isOpen, rfl⟩
  exact ⟨isOpen, rfl⟩

/-- What is looked up beside the entry is the same in both sessions. -/
theorem isMirrored_get {part : Session ε → α} {other : Session Entry → α}
    (same : ∀ session, part session = other session.shown) :
    IsMirrored (.get part) (.get other) := by
  apply Mirrors.get
  intro session _ shows
  rcases shows with ⟨-, rfl⟩
  exact same session

theorem isMirrored_backlog : IsMirrored (backlog : Routine (Session ε) Nat) backlog :=
  isMirrored_get fun _ => rfl

theorem isMirrored_withFollower (routine : Routine Follower α) :
    IsMirrored (withFollower routine : Routine (Session ε) α) (withFollower routine) := by
  apply Mirrors.zoom
  · intro session _ shows
    rcases shows with ⟨-, rfl⟩
    rfl
  · intro follower session _ shows
    rcases shows with ⟨isOpen, rfl⟩
    exact ⟨isOpen, rfl⟩

theorem isMirrored_inWindow (look : Window → α) :
    IsMirrored (inWindow look : Routine (Session ε) α) (inWindow look) :=
  .exclusively (isMirrored_get fun _ => rfl)

theorem isMirrored_call (call : Node.Call) :
    IsMirrored (Session.call call : Routine (Session ε) _) (Session.call call) :=
  .guarded (.node call)

theorem isMirrored_blockOr (name : String) (found : Option Block) :
    IsMirrored (blockOr name found : Routine (Session ε) Block) (blockOr name found) := by
  cases found with
  | some block => exact .done block
  | none => exact .fail _

theorem isMirrored_blockAt (height : Nat) :
    IsMirrored (blockAt height : Routine (Session ε) Block) (blockAt height) :=
  (isMirrored_call _).andThen fun _ => isMirrored_blockOr _ _

theorem isMirrored_blockWithHash (hash : String) :
    IsMirrored (blockWithHash hash : Routine (Session ε) Block) (blockWithHash hash) :=
  (isMirrored_call _).andThen fun _ => isMirrored_blockOr _ _

theorem isMirrored_reply (call : Node.Call) :
    IsMirrored ((Routine.ask (.cancelableNode call) .done).guarded : Routine (Session ε) _)
      (Routine.ask (.cancelableNode call) .done).guarded :=
  .guarded (.ask .done)

theorem isMirrored_retryLogs (query : LogQuery) (delay attempts : Nat) :
    IsMirrored (retryLogs query delay attempts : Routine (Session ε) (List Log))
      (retryLogs query delay attempts) := by
  induction attempts with
  | zero => exact isMirrored_call _
  | succ attempts induction =>
      apply (isMirrored_reply _).andThen
      intro reply
      rcases reply with _ | _ | logs
      · exact .fail .canceled
      · exact (Mirrors.sleep delay).andThen fun _ => induction
      · exact .done logs

theorem isMirrored_logsOfBlocks (config : Config) (blocks : List Block) :
    IsMirrored (logsOfBlocks config blocks : Routine (Session ε) (List Log))
      (logsOfBlocks config blocks) := by
  induction blocks with
  | nil => exact .done []
  | cons block rest induction =>
      exact (isMirrored_retryLogs _ _ _).andThen fun logs => induction.andThen fun _ => .done _

/-! ## Where to go on -/

theorem isMirrored_commonAncestor (last stored canonical : Block) (backlog steps : Nat) :
    IsMirrored (commonAncestor last backlog steps stored canonical : Routine (Session ε) Block)
      (commonAncestor last backlog steps stored canonical) := by
  induction steps generalizing stored canonical with
  | zero =>
      rw [commonAncestor, commonAncestor]
      split
      · exact .done canonical
      · exact .fail _
  | succ steps induction =>
      rw [commonAncestor, commonAncestor]
      split
      · exact .done canonical
      · split
        · exact .fail _
        · exact (isMirrored_blockWithHash _).andThen fun parent =>
            (isMirrored_blockWithHash _).andThen fun next => induction parent next

theorem isMirrored_reconcilePosition (last : Block) :
    IsMirrored (reconcilePosition last : Routine (Session ε) Block) (reconcilePosition last) := by
  apply (isMirrored_call _).andThen
  intro head
  split
  · exact .fail _
  · apply (isMirrored_blockAt _).andThen
    intro canonical
    split
    · exact .done last
    · apply isMirrored_backlog.andThen
      intro backlog
      apply (isMirrored_commonAncestor _ _ _ _ _).andThen
      intro ancestor
      apply (Mirrors.sum _ _).andThen
      intro above
      apply (isMirrored_rollbackPoint above).andThen
      intro parts
      exact (isMirrored_apply _).andThen fun _ => .done ancestor

theorem isMirrored_start (setup : Setup) :
    IsMirrored (start setup : Routine (Session ε) Nat) (start setup) := by
  rw [start, start]
  split
  · apply (isMirrored_call _).andThen
    intro head
    split
    · exact .fail _
    · exact .done _
  · split
    · apply Mirrors.checkCanceled.andThen
      intro _
      apply (Mirrors.query _).andThen
      intro hint
      rcases hint with _ | _ | _ | number
      · exact .fail .canceled
      · exact .done 0
      · exact .done 0
      · exact .done number
    · exact .done 0

theorem isMirrored_origin (setup : Setup) :
    IsMirrored (origin setup : Routine (Session ε) (Nat × Option Block)) (origin setup) := by
  have recalls : IsMirrored (readEntry EntryStore.lastBlock : Routine (Session ε) _)
      (readEntry EntryStore.lastBlock) :=
    isMirrored_readEntry fun _ isOpen => MirroringStore.lastBlock_eq isOpen
  apply recalls.andThen
  intro last?
  cases last? with
  | some last =>
      apply (isMirrored_reconcilePosition last).andThen
      intro ancestor
      exact (Mirrors.sum _ _).andThen fun _ => .done _
  | none => exact (isMirrored_start setup).andThen fun _ => .done _

/-! ## Ranges -/

theorem isMirrored_isSettled (state : Backfill) :
    IsMirrored (isSettled state : Routine (Session ε) Bool) (isSettled state) := by
  rw [isSettled.eq_def, isSettled.eq_def]
  split
  · apply (isMirrored_call _).andThen
    intro found
    cases found with
    | some canonical => exact .done _
    | none => exact .done false
  · exact .done true

theorem isMirrored_checkNear (state : Backfill) (head backlog : Nat) :
    IsMirrored (state.checkNear head backlog : Routine (Session ε) Bool)
      (state.checkNear head backlog) := by
  rw [Backfill.checkNear, Backfill.checkNear]
  split
  · exact .done true
  · exact (Mirrors.difference _ _).andThen fun _ => (Mirrors.sum _ _).andThen fun _ => .done _

theorem isMirrored_checkEnd (state : Backfill) (head backlog : Nat) :
    IsMirrored (state.checkEnd head backlog : Routine (Session ε) Nat)
      (state.checkEnd head backlog) :=
  (Mirrors.difference _ _).andThen fun _ => .done _

theorem isMirrored_checkAdvance (state : Backfill) (config : Config) (block : Block)
    (rangeEnd : Nat) :
    IsMirrored (state.checkAdvance config block rangeEnd : Routine (Session ε) Backfill)
      (state.checkAdvance config block rangeEnd) :=
  (Mirrors.sum _ _).andThen fun _ => (Mirrors.sum _ _).andThen fun _ => .done _

theorem isMirrored_backfillRange (config : Config) (state : Backfill) (rangeEnd : Nat) :
    IsMirrored (backfillRange config state rangeEnd : Routine (Session ε) Backfill)
      (backfillRange config state rangeEnd) := by
  apply (isMirrored_reply _).andThen
  intro reply
  rcases reply with _ | error | logs
  · exact .fail .canceled
  · change IsMirrored (ite _ _ _) (ite _ _ _)
    split
    · exact .done state.shrink
    · exact .fail _
  · apply (isMirrored_blockAt _).andThen
    intro block
    exact (isMirrored_apply _).andThen fun _ => isMirrored_checkAdvance _ _ _ _

theorem isMirrored_backfillStep (config : Config) (state : Backfill) :
    IsMirrored (backfillStep config state : Routine (Session ε) (Backfill ⊕ Option Backfill))
      (backfillStep config state) := by
  apply Mirrors.checkCanceled.andThen
  intro _
  apply (isMirrored_isSettled state).andThen
  intro settled
  cases settled with
  | false => exact .done _
  | true =>
      apply isMirrored_backlog.andThen
      intro backlog
      apply (isMirrored_call _).andThen
      intro head
      apply (isMirrored_checkNear _ _ _).andThen
      intro isNear
      cases isNear with
      | true => exact .done _
      | false =>
          apply (isMirrored_enter _).andThen
          intro _
          apply (isMirrored_checkEnd _ _ _).andThen
          intro rangeEnd
          exact (isMirrored_backfillRange _ _ _).andThen fun _ => .done _

theorem isMirrored_backfill (config : Config) (turns origin : Nat) (last : Option Block) :
    IsMirrored (backfill config turns origin last : Routine (Session ε) (Option Backfill))
      (backfill config turns origin last) :=
  .iterate (isMirrored_backfillStep config) turns _

/-! ## Near the head -/

theorem isMirrored_refreshHead :
    IsMirrored (refreshHead : Routine (Session ε) Block) refreshHead := by
  have updated : ∀ {α : Type} (routine : Routine Follower α),
      IsMirrored ((withFollower routine).guardedExclusively >>= fun _ =>
          followedHead? >>= blockOr "latest" : Routine (Session ε) Block)
        ((withFollower routine).guardedExclusively >>= fun _ =>
          followedHead? >>= blockOr "latest") := by
    intro α routine
    apply (isMirrored_withFollower routine).guardedExclusively.andThen
    intro _
    exact (isMirrored_inWindow _).andThen fun _ => isMirrored_blockOr _ _
  apply (isMirrored_call _).andThen
  intro found
  apply (isMirrored_blockOr _ found).andThen
  intro latest
  apply isMirrored_backlog.andThen
  intro backlog
  apply (isMirrored_inWindow _).andThen
  intro head?
  cases head? with
  | none => exact updated _
  | some head =>
      dsimp only
      split
      · exact updated _
      · exact updated _

theorem isMirrored_parentOf (block : Block) :
    IsMirrored (parentOf block : Routine (Session ε) Block) (parentOf block) := by
  apply (isMirrored_inWindow _).andThen
  intro found
  cases found with
  | some parent => exact .done parent
  | none => exact isMirrored_blockWithHash _

theorem isMirrored_descend (turns origin : Nat) (head : Block) :
    IsMirrored (descend turns origin head : Routine (Session ε) (Block × List Block))
      (descend turns origin head) := by
  refine .iterate (fun run => ?_) turns _
  rw [descendStep, descendStep]
  split
  · apply Mirrors.checkCanceled.andThen
    intro _
    exact (isMirrored_parentOf _).andThen fun _ => .done _
  · exact .done _

theorem isMirrored_hotZone (config : Config) (turns origin : Nat) (last : Option Block) :
    IsMirrored (hotZone config turns origin last : Routine (Session ε) (Option Block))
      (hotZone config turns origin last) := by
  apply isMirrored_refreshHead.andThen
  intro head
  split
  · cases last with
    | some last => exact .done _
    | none => exact .fail _
  · apply (isMirrored_enter _).andThen
    intro _
    apply (isMirrored_descend turns origin head).andThen
    intro run
    dsimp only
    split
    · apply (isMirrored_logsOfBlocks config _).andThen
      intro logs
      exact (isMirrored_apply _).andThen fun _ => .done _
    · exact .done none

/-! ## Whole synchronisations -/

theorem isMirrored_identify : IsMirrored (identify : Routine (Session ε) Unit) identify := by
  have recalls : IsMirrored (readEntry EntryStore.identity : Routine (Session ε) _)
      (readEntry EntryStore.identity) :=
    isMirrored_readEntry fun _ isOpen => MirroringStore.identity_eq isOpen
  have records : ∀ identity,
      IsMirrored (changeEntry fun entry : ε => EntryStore.record entry identity)
        (changeEntry fun entry : Entry => EntryStore.record entry identity) := by
    intro identity
    apply isMirrored_changeEntry
    · intro entry next isOpen recorded room
      cases recorded
      exact MirroringStore.record_eq isOpen room
    · intro entry error isOpen refused
      cases refused
  apply (isMirrored_enter _).andThen
  intro _
  apply (isMirrored_call _).andThen
  intro found
  apply (isMirrored_blockOr _ found).andThen
  intro genesis
  apply (isMirrored_call _).andThen
  intro chainId
  apply recalls.andThen
  intro recorded?
  cases recorded? with
  | none => exact records _
  | some recorded =>
      dsimp only
      split
      · exact .fail _
      · split
        · exact .fail _
        · exact .done ()

theorem isMirrored_identifyOnce :
    IsMirrored (identifyOnce : Routine (Session ε) Unit) identifyOnce := by
  have known : IsMirrored (.get Session.isIdentified : Routine (Session ε) Bool)
      (.get Session.isIdentified) := isMirrored_get fun _ => rfl
  apply known.andThen
  intro isIdentified
  cases isIdentified with
  | true => exact .done ()
  | false =>
      apply isMirrored_identify.andThen
      intro _
      apply Mirrors.modify
      intro session _ shows
      rcases shows with ⟨isOpen, rfl⟩
      exact ⟨isOpen, rfl⟩

variable (setup : Setup) (turns : Nat)

theorem isMirrored_round :
    IsMirrored (round setup turns : Routine (Session ε) (Option Block)) (round setup turns) := by
  apply (isMirrored_origin setup).andThen
  intro start
  apply (isMirrored_backfill _ _ _ _).andThen
  intro reached
  cases reached with
  | none => exact .done none
  | some reached => exact isMirrored_hotZone _ _ _ _

theorem isMirrored_rounds (left past : Nat) :
    IsMirrored (rounds setup turns left past : Routine (Session ε) Block)
      (rounds setup turns left past) := by
  induction left generalizing past with
  | zero =>
      apply (isMirrored_round setup turns).andThen
      intro block
      cases block with
      | some block => exact .done block
      | none => exact .fail _
  | succ left induction =>
      apply (isMirrored_round setup turns).andThen
      intro block
      cases block with
      | some block => exact .done block
      | none => exact (Mirrors.sleep _).andThen fun _ => induction (past + 1)

theorem isMirrored_catchUp :
    IsMirrored (catchUp setup turns : Routine (Session ε) Block) (catchUp setup turns) :=
  isMirrored_identifyOnce.andThen fun _ => isMirrored_rounds setup turns _ 0

theorem isMirrored_concluding {work : Routine (Session ε) α} {other : Routine (Session Entry) α}
    (mirrors : IsMirrored work other) : IsMirrored (concluding work) (concluding other) := by
  apply mirrors.attempt.andThen
  intro outcome
  cases outcome with
  | ok value => exact .done value
  | error error => exact (isMirrored_enter _).andThen fun _ => .fail error

theorem isMirrored_sync :
    IsMirrored (sync setup turns : Routine (Session ε) Block) (sync setup turns) :=
  isMirrored_concluding (isMirrored_catchUp setup turns)

/-! ## The live loop -/

theorem isMirrored_baseOf (last : Block) (delta : Delta) :
    IsMirrored (baseOf last delta : Routine (Session ε) (Option Base)) (baseOf last delta) := by
  rw [baseOf.eq_def, baseOf.eq_def]
  split
  · exact .done _
  · split
    · exact .done _
    · split
      · exact (isMirrored_rollbackPoint _).andThen fun _ => .done _
      · split
        · exact .done _
        · exact .done none

theorem isMirrored_applyDelta (config : Config) (last : Block) (delta : Delta) :
    IsMirrored (applyDelta config last delta : Routine (Session ε) LiveStep)
      (applyDelta config last delta) := by
  apply (isMirrored_baseOf last delta).andThen
  intro base?
  cases base? with
  | none => exact .done _
  | some base =>
      dsimp only
      split
      · split
        · apply (isMirrored_logsOfBlocks config _).andThen
          intro logs
          exact (isMirrored_apply _).andThen fun _ => .done _
        · exact .done _
      · exact .done _

theorem isMirrored_resume (position : Nat) :
    IsMirrored (resume setup turns position : Routine (Session ε) Live)
      (resume setup turns position) :=
  (isMirrored_catchUp setup turns).andThen fun _ => (isMirrored_enter _).andThen fun _ => .done _

theorem isMirrored_liveStep (live : Live) :
    IsMirrored (liveStep setup turns live : Routine (Session ε) (Live ⊕ Empty))
      (liveStep setup turns live) := by
  have heard : IsMirrored (.get (·.follower.deltas) : Routine (Session ε) (Feed Delta))
      (.get (·.follower.deltas)) := isMirrored_get fun _ => rfl
  apply heard.andThen
  intro deltas
  split
  · exact (isMirrored_resume setup turns _).andThen fun _ => .done _
  · apply (Mirrors.query .idle).andThen
    intro canceled
    cases canceled with
    | true => exact .fail .canceled
    | false => exact .done _
  · apply (isMirrored_applyDelta _ _ _).andThen
    intro result
    cases result with
    | applied last => exact .done _
    | skipped => exact .done _
    | gap => exact (isMirrored_resume setup turns _).andThen fun _ => .done _

theorem isMirrored_run : IsMirrored (run setup turns : Routine (Session ε) Unit) (run setup turns) := by
  have follows : IsMirrored (follow setup turns : Routine (Session ε) Empty) (follow setup turns) := by
    have tail : IsMirrored (.get (·.follower.deltas.tail) : Routine (Session ε) Nat)
        (.get (·.follower.deltas.tail)) := isMirrored_get fun _ => rfl
    apply tail.andThen
    intro position
    apply (isMirrored_resume setup turns position).andThen
    intro live
    exact .iterate (isMirrored_liveStep setup turns) turns live
  apply (isMirrored_concluding follows).attempt.andThen
  intro outcome
  cases outcome with
  | ok never => cases never
  | error error =>
      dsimp only
      split
      · exact .done ()
      · exact .fail error

theorem isMirrored_serve (jobs : List Job) :
    IsMirrored (serve setup jobs : Routine (Session ε) Unit) (perform setup jobs) := by
  induction jobs with
  | nil => exact .done ()
  | cons job rest induction =>
      have works : IsMirrored (job.call setup : Routine (Session ε) Unit) (job.work setup) := by
        cases job with
        | sync turns => exact (isMirrored_sync setup turns).andThen fun _ => .done ()
        | run turns => exact isMirrored_run setup turns
      exact works.attempt.andThen fun _ => induction

end Session

/-! ## Surroundings -/

/-- What surroundings do beside sessions in memory, done beside sessions that show them. The
entry stays open. -/
def Conduct.besideShown {ε : Type} [EntryStore ε] [MirroringStore ε]
    (conduct : Conduct (Session Entry) ω) : Conduct (Session ε) ω :=
  fun query before early answer after late =>
    conduct query before.shown early answer after.shown late ∧
      (MirroringStore.IsOpen before.entry → MirroringStore.IsOpen after.entry)

namespace Session

variable {ε : Type} [EntryStore ε] [MirroringStore ε]

theorem besideShown_mirroredBy (conduct : Conduct (Session Entry) ω) :
    (conduct.besideShown (ε := ε)).MirroredBy Shows conduct := by
  intro query before _ early answer after late shows accepted
  rcases shows with ⟨isOpen, rfl⟩
  exact ⟨after.shown, ⟨accepted.2 isOpen, rfl⟩, accepted.1⟩

/-- Whoever moves the head and the follower does nothing else beside a session. -/
theorem besideShown_of_conduct {movement : Movement ω} {tree : BlockTree} {query : Query}
    {before after : Session ε} {early late : ω} {answer : query.Answer}
    (accepted : movement.conduct tree query before early answer after late) :
    (movement.conduct tree).besideShown query before early answer after late := by
  have unchanged : after = { before with follower := after.follower } := accepted.1.1
  have sameEntry : after.entry = before.entry := by rw [unchanged]
  refine ⟨⟨⟨?_, accepted.1.2⟩, accepted.2⟩, fun isOpen => ?_⟩
  · rw [unchanged]
    rfl
  · rw [sameEntry]
    exact isOpen

/-- A chain that stands still does not look at sessions. -/
theorem surroundings_mirroredBy (chain : StillChain) :
    (chain.surroundings : Surroundings (Session ε) Unit).conduct.MirroredBy Shows
      chain.surroundings.conduct := by
  intro query before shown early answer after late shows answered
  cases answered
  exact ⟨shown, shows, rfl⟩

/-! ## Runs -/

section Runs

variable {conduct : Conduct (Session Entry) ω} {session : Session ε} {world : ω}
  {routine : Routine (Session ε) α} {other : Routine (Session Entry) α}

/-- Whatever work over a store comes to, the same work comes to in the session that is shown,
unless the entry there comes to have no room in the store. -/
theorem IsMirrored.exists_reaches (mirrors : IsMirrored routine other)
    (isOpen : MirroringStore.IsOpen session.entry) {now : Situation (Session ε) ω α}
    (reached : Situation.Reaches conduct.besideShown ⟨routine, session, world⟩ now) :
    ∃ inMemory, Situation.Reaches conduct ⟨other, session.shown, world⟩ inMemory ∧
      (inMemory.state = now.state.shown ∧ inMemory.world = now.world ∨
        ¬ MirroringStore.HasRoom (ε := ε) inMemory.state.entry) := by
  have begins : Situation.Mirrors Shows
      (fun session => MirroringStore.HasRoom (ε := ε) session.entry) ⟨routine, session, world⟩
        ⟨other, session.shown, world⟩ := ⟨mirrors, ⟨isOpen, rfl⟩, rfl⟩
  rcases begins.reaches (besideShown_mirroredBy conduct) reached with ⟨inMemory, reachedThen, same | unfit⟩
  · exact ⟨inMemory, reachedThen, .inl ⟨same.state.2.symm, same.world.symm⟩⟩
  · exact ⟨inMemory, reachedThen, .inr unfit⟩

/-- What holds wherever work in memory comes to, the same work over a store shows wherever it
comes to, as long as there is room. -/
theorem IsMirrored.holds (mirrors : IsMirrored routine other)
    (isOpen : MirroringStore.IsOpen session.entry)
    (room : ∀ inMemory, Situation.Reaches conduct ⟨other, session.shown, world⟩ inMemory →
      MirroringStore.HasRoom (ε := ε) inMemory.state.entry)
    (holds : Session Entry → ω → Prop)
    (inMemory : ∀ inMemory, Situation.Reaches conduct ⟨other, session.shown, world⟩ inMemory →
      holds inMemory.state inMemory.world)
    {now : Situation (Session ε) ω α}
    (reached : Situation.Reaches conduct.besideShown ⟨routine, session, world⟩ now) :
    holds now.state.shown now.world := by
  rcases mirrors.exists_reaches isOpen reached with ⟨shown, reachedThen, ⟨same, sameWorld⟩ | unfit⟩
  · rw [← same, ← sameWorld]
    exact inMemory shown reachedThen
  · exact absurd (room shown reachedThen) unfit

/-- However work over a store ends, the same work ends in memory, as long as there is room. -/
theorem IsMirrored.ends (mirrors : IsMirrored routine other)
    (isOpen : MirroringStore.IsOpen session.entry)
    (room : ∀ inMemory, Situation.Reaches conduct ⟨other, session.shown, world⟩ inMemory →
      MirroringStore.HasRoom (ε := ε) inMemory.state.entry)
    {outcome : Outcome α} {after : Session ε} {later : ω}
    (ended : routine.Ends conduct.besideShown session world outcome after later) :
    other.Ends conduct session.shown world outcome after.shown later := by
  rcases Routine.Mirrors.ends (besideShown_mirroredBy conduct) mirrors ⟨isOpen, rfl⟩ ended with
    ⟨_, ⟨-, rfl⟩, endedThen⟩ | ⟨shown, reached, unfit⟩
  · exact endedThen
  · exact absurd (room shown reached) unfit

/-- The logs that a session over a store shows are those of the path, unless a stored block was
displaced. -/
theorem shown_matches_unless_displaced {setup : Setup} {jobs : List Job} {tree : BlockTree}
    {headOf : ω → Block} {notes : ω → List Note} {backlog : Nat}
    (isOpen : MirroringStore.IsOpen session.entry)
    (ready : session.shown.IsReady tree setup.config.filter backlog) (fresh : notes world = [])
    (noStart : setup.config.startBlock = none) (noHints : setup.hasHints = false)
    (room : ∀ inMemory,
      Situation.Reaches ((Movement.shallow tree headOf backlog).noting tree notes)
        ⟨perform setup jobs, session.shown, world⟩ inMemory →
          MirroringStore.HasRoom (ε := ε) inMemory.state.entry)
    {now : Situation (Session ε) ω Unit}
    (reached : Situation.Reaches
      ((Movement.shallow tree headOf backlog).noting tree notes).besideShown
        ⟨serve setup jobs, session, world⟩ now) :
    IsDisplaced tree setup.config.filter backlog (notes now.world) ∨
      now.state.shown.entry.Matches tree setup.config.filter := by
  have notYet : ¬ IsDisplaced tree setup.config.filter backlog (notes world) := by
    rw [fresh]
    rintro ⟨displacement, isNoted⟩
    cases List.eq_nil_of_infix_nil isNoted.inRow
  refine (isMirrored_serve setup jobs).holds isOpen room (fun session world =>
    IsDisplaced tree setup.config.filter backlog (notes world) ∨
      session.entry.Matches tree setup.config.filter) (fun inMemory reached => ?_) reached
  exact ((staysOnPath_perform jobs ⟨ready, notYet⟩ noStart noHints).reaches_unless
    isDisplaced_remains reached).imp_right fun passed => passed.1 ready.entry

end Runs

/-- A synchronisation of a new session over a store brings what it shows up to the head. -/
theorem exists_run_sync_shown (chain : StillChain) (setup : Setup) (retryDelay : Nat)
    (capacity : Option Nat) (turns : Nat) {session : Session ε} {entry : Entry}
    (isOpen : MirroringStore.IsOpen session.entry)
    (isFresh : session.shown = .fresh setup.config retryDelay capacity entry)
    (noStart : setup.config.startBlock = none) (noHints : setup.hasHints = false)
    (resumes : chain.CanResume setup.config entry)
    (enough : (chain.head.number + 2) * (setup.config.batchSize + 2) ≤ turns)
    (fits : Backfill.Fits setup.config)
    (room : ∀ now, Situation.Reaches chain.surroundings.conduct
      ⟨sync setup turns, session.shown, ()⟩ now → MirroringStore.HasRoom (ε := ε) now.state.entry) :
    ∃ after, (sync setup turns).run chain.surroundings session () = (.value chain.head, after, ()) ∧
      after.shown.entry = chain.entryBelow setup.config.filter (chain.head.number + 1) := by
  rcases attains_sync chain setup retryDelay capacity turns noStart noHints resumes enough fits with
    ⟨block, inMemory, _, run, rfl, stored⟩
  rw [← isFresh] at run
  generalize ran : (sync setup turns).run chain.surroundings session () = ended
  rcases ended with ⟨outcome, after, _⟩
  rcases (isMirrored_sync setup turns).run (surroundings_mirroredBy chain) ⟨isOpen, rfl⟩ ran with
    ⟨other, ⟨-, rfl⟩, same⟩ | ⟨now, reached, unfit⟩
  · cases run.symm.trans same
    exact ⟨after, rfl, stored⟩
  · exact absurd (room now reached) unfit

end Session

end ReorgSync
