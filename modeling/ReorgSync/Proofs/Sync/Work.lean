import ReorgSync.Proofs.Routine.Writes
import ReorgSync.Proofs.Sync.Arithmetic
import ReorgSync.Sync.Live

namespace ReorgSync

/-! What a session writes, whatever the node answers and whatever others do meanwhile. Most
of its work only moves it on; behind the preflight it also stores events and publishes
them. -/

namespace Session

open Routine (OnlyWrites)

variable {ε : Type} {session : Session ε}

/-! ## Work that stores nothing

All that such work writes is the follower. What only looks writes nothing at all, and so
nothing but what any relation allows. -/

section Looking

variable {writes : Session ε → Session ε → Prop}

theorem onlyWrites_call (call : Node.Call) : (Session.call call).OnlyWrites writes session :=
  .guarded fun _ => .node

theorem onlyWrites_blockOr (name : String) (found : Option Block) :
    (blockOr name found).OnlyWrites writes session := by
  cases found <;> trivial

theorem onlyWrites_blockAt (height : Nat) : (blockAt height).OnlyWrites writes session :=
  .andThen (onlyWrites_call _) fun _ _ => onlyWrites_blockOr _ _

theorem onlyWrites_blockWithHash (hash : String) : (blockWithHash hash).OnlyWrites writes session :=
  .andThen (onlyWrites_call _) fun _ _ => onlyWrites_blockOr _ _

theorem onlyWrites_reply (call : Node.Call) :
    (Routine.ask (.cancelableNode call) .done).guarded.OnlyWrites writes session :=
  .guarded fun _ _ _ => trivial

theorem onlyWrites_retryLogs (query : LogQuery) (delay attempts : Nat) :
    (retryLogs query delay attempts).OnlyWrites writes session := by
  induction attempts generalizing session with
  | zero => exact onlyWrites_call _
  | succ attempts induction =>
      refine .andThen (onlyWrites_reply _) fun reply after => ?_
      rcases reply with _ | _ | logs
      · trivial
      · exact .andThen .sleep fun _ _ => induction
      · trivial

theorem onlyWrites_logsOfBlocks (config : Config) (blocks : List Block) :
    (logsOfBlocks config blocks).OnlyWrites writes session := by
  induction blocks generalizing session with
  | nil => trivial
  | cons block rest induction =>
      refine .andThen (onlyWrites_retryLogs _ _ _) fun _ after => ?_
      exact .andThen induction fun _ _ => trivial

theorem onlyWrites_inWindow (look : Window → α) : (inWindow look).OnlyWrites writes session :=
  .exclusively fun _ => trivial

theorem onlyWrites_withFollower (follows : ∀ session follower, writes session { session with follower })
    (routine : Routine Follower α) : (withFollower routine).OnlyWrites writes session := by
  induction routine generalizing session with
  | done value => trivial
  | fail error => trivial
  | halted cause => trivial
  | read next induction => exact induction session.follower
  | write changed next induction => exact ⟨follows session changed, induction⟩
  | ask query next induction => exact fun answer _ => induction answer

theorem onlyWrites_refreshHead
    (follows : ∀ session follower, writes session { session with follower }) :
    refreshHead.OnlyWrites writes session := by
  have updated : ∀ {α : Type} (routine : Routine Follower α) (after : Session ε),
      ((withFollower routine).guardedExclusively >>= fun _ =>
        followedHead? >>= blockOr "latest").OnlyWrites writes after := by
    intro α routine after
    refine .andThen (.guardedExclusively fun _ => onlyWrites_withFollower follows _) fun _ _ => ?_
    exact .andThen (onlyWrites_inWindow _) fun _ _ => onlyWrites_blockOr _ _
  refine .andThen (onlyWrites_call _) fun found after => ?_
  refine .andThen (onlyWrites_blockOr _ found) fun latest after => ?_
  apply OnlyWrites.get_andThen
  refine .andThen (onlyWrites_inWindow _) fun head? after => ?_
  cases head? with
  | none => exact updated _ after
  | some head =>
      dsimp only
      split
      · exact updated _ after
      · exact updated _ after

theorem onlyWrites_parentOf (block : Block) : (parentOf block).OnlyWrites writes session := by
  refine .andThen (onlyWrites_inWindow _) fun found after => ?_
  cases found with
  | some parent => trivial
  | none => exact onlyWrites_blockWithHash _

theorem onlyWrites_descend (turns origin : Nat) (head : Block) :
    (descend turns origin head).OnlyWrites writes session := by
  refine .iterate (fun run session => ?_) turns _
  rw [descendStep]
  split
  · refine .andThen .checkCanceled fun _ after => ?_
    exact .andThen (onlyWrites_parentOf _) fun _ _ => trivial
  · trivial

theorem onlyWrites_commonAncestor (last stored canonical : Block) (backlog steps : Nat) :
    (commonAncestor last backlog steps stored canonical).OnlyWrites writes session := by
  induction steps generalizing stored canonical session with
  | zero =>
      rw [commonAncestor]
      split <;> trivial
  | succ steps induction =>
      rw [commonAncestor]
      split
      · trivial
      · split
        · trivial
        · refine .andThen (onlyWrites_blockWithHash _) fun parent after => ?_
          exact .andThen (onlyWrites_blockWithHash _) fun next _ => induction parent next

theorem onlyWrites_isSettled (state : Backfill) : (isSettled state).OnlyWrites writes session := by
  rw [isSettled.eq_def]
  split
  · refine .andThen (onlyWrites_call _) fun found after => ?_
    cases found <;> trivial
  · trivial

theorem onlyWrites_start (setup : Setup) : (start setup).OnlyWrites writes session := by
  rw [start]
  split
  · refine .andThen (onlyWrites_call _) fun head after => ?_
    split <;> trivial
  · split
    · refine .andThen .checkCanceled fun _ after => ?_
      intro hint after
      rcases hint with _ | (_ | _ | number) <;> trivial
    · trivial

theorem onlyWrites_readEntry (read : ε → Except SyncError α) :
    (readEntry read).OnlyWrites writes session :=
  OnlyWrites.get_andThen .ofExcept

theorem onlyWrites_baseOf [EntryStore ε] (last : Block) (delta : Delta) :
    (baseOf last delta).OnlyWrites writes session := by
  rw [baseOf.eq_def]
  split
  · trivial
  · split
    · trivial
    · split
      · exact .andThen (onlyWrites_readEntry _) fun _ _ => trivial
      · split <;> trivial

/-- What is read of the entry is true of it as it is. -/
theorem guarantees_readEntry {ω : Type} {conduct : Conduct (Session ε) ω} {world : ω}
    {met : β → Session ε → Prop} {read : ε → Except SyncError α}
    {second : α → Routine (Session ε) β} (continues : ∀ value, read session.entry = .ok value →
      (second value).Guarantees conduct writes met session world) :
    (readEntry read >>= second).Guarantees conduct writes met session world := by
  change Routine.Guarantees _ _ _ (Routine.ofExcept (read session.entry) >>= second) session world
  cases found : read session.entry with
  | error error => trivial
  | ok value => exact continues value found

end Looking

/-- Nothing is stored, published or found out about the chain. -/
structure Moves (before after : Session ε) : Prop where
  entry : after.entry = before.entry
  events : after.events = before.events
  isIdentified : after.isIdentified = before.isIdentified

abbrev OnlyMoves (routine : Routine (Session ε) α) (session : Session ε) : Prop :=
  routine.OnlyWrites Moves session

theorem onlyMoves_enter (phase : Phase) : OnlyMoves (enter phase) session :=
  .modify ⟨rfl, rfl, rfl⟩

theorem onlyMoves_refreshHead : OnlyMoves refreshHead session :=
  onlyWrites_refreshHead fun _ _ => ⟨rfl, rfl, rfl⟩

/-! ## The preflight -/

/-- One write of a preflight: of what is stored, it changes the recorded identity at most. -/
structure Prepares [EntryStore ε] (before after : Session ε) : Prop where
  entry : after.entry = before.entry ∨
    ∃ identity, EntryStore.record before.entry identity = .ok after.entry
  events : after.events = before.events
  follower : after.follower = before.follower

theorem onlyPrepares_identifyOnce [EntryStore ε] :
    (identifyOnce : Routine (Session ε) Unit).OnlyWrites Prepares session := by
  have identifies : (identify : Routine (Session ε) Unit).OnlyWrites Prepares session := by
    refine .andThen (.modify ⟨.inl rfl, rfl, rfl⟩) fun _ after => ?_
    refine .andThen (onlyWrites_call _) fun found after => ?_
    refine .andThen (onlyWrites_blockOr _ _) fun genesis after => ?_
    refine .andThen (onlyWrites_call _) fun chainId after => ?_
    refine .andThen (onlyWrites_readEntry _) fun recorded? after => ?_
    cases recorded? with
    | none =>
        change OnlyWrites _ (Routine.ofExcept (EntryStore.record after.entry _) >>= _) after
        cases recorded : EntryStore.record after.entry ⟨chainId, genesis.hash⟩ with
        | error error => trivial
        | ok entry => exact ⟨⟨.inr ⟨_, recorded⟩, rfl, rfl⟩, trivial⟩
    | some recorded =>
        dsimp only
        split
        · trivial
        · split <;> trivial
  change OnlyWrites _ (ite _ _ _) session
  split
  · trivial
  · exact .andThen identifies fun _ _ => .modify ⟨.inl rfl, rfl, rfl⟩

/-! ## Work behind the preflight -/

/-- One write of a session that has identified the chain. -/
inductive Works [EntryStore ε] (before after : Session ε) : Prop
  | moves (moves : Moves before after)
  | stores (event : Event) (stored : EntryStore.apply before.entry event = .ok after.entry)
      (events : after.events = before.events)
      (isIdentified : after.isIdentified = before.isIdentified)
  | publishes (event : Event) (entry : after.entry = before.entry)
      (events : after.events = before.events.publish event)
      (isIdentified : after.isIdentified = before.isIdentified)

abbrev OnlyWorks [EntryStore ε] (routine : Routine (Session ε) α) (session : Session ε) : Prop :=
  routine.OnlyWrites Works session

end Session

namespace Routine.OnlyWrites

open Session

variable {ε : Type} [EntryStore ε] {session : Session ε}

theorem works {routine : Routine (Session ε) α} (only : OnlyMoves routine session) :
    OnlyWorks routine session :=
  only.mono fun _ _ => .moves

/-- Work that only moves the session on, in front of work that stores. -/
theorem andWorks {first : Routine (Session ε) α} {second : α → Routine (Session ε) β}
    (only : OnlyMoves first session) (continues : ∀ value after, OnlyWorks (second value) after) :
    OnlyWorks (first >>= second) session :=
  .andThen only.works continues

end Routine.OnlyWrites

namespace Session

open Routine (OnlyWrites)

variable {ε : Type} [EntryStore ε] {session : Session ε} {setup : Setup} {turns : Nat}

theorem onlyWorks_apply (event : Event) : OnlyWorks (Session.apply event) session := by
  rw [Session.apply, changeEntry, bind_assoc]
  change OnlyWorks (Routine.ofExcept (EntryStore.apply session.entry event) >>= _) session
  cases stored : EntryStore.apply session.entry event with
  | error error => trivial
  | ok entry => exact ⟨.stores event stored rfl rfl, .publishes event rfl rfl rfl, trivial⟩

theorem onlyWorks_reconcilePosition (last : Block) :
    OnlyWorks (reconcilePosition last) session := by
  refine (onlyWrites_call _).andWorks fun head after => ?_
  split
  · trivial
  · refine (onlyWrites_blockAt _).andWorks fun canonical after => ?_
    split
    · trivial
    · apply OnlyWrites.get_andThen
      refine (onlyWrites_commonAncestor _ _ _ _ _).andWorks fun ancestor after => ?_
      refine OnlyWrites.andWorks (.computes (.sum _ _)) fun above after => ?_
      refine (onlyWrites_readEntry _).andWorks fun parts after => ?_
      exact .andThen (onlyWorks_apply _) fun _ _ => trivial

theorem onlyWorks_origin (setup : Setup) : OnlyWorks (origin setup) session := by
  refine (onlyWrites_readEntry _).andWorks fun last? after => ?_
  cases last? with
  | some last =>
      exact .andThen (onlyWorks_reconcilePosition last) fun _ _ =>
        .andThen (.computes (.sum _ _)) fun _ _ => trivial
  | none => exact (onlyWrites_start setup).andWorks fun _ _ => trivial

theorem onlyWorks_backfillRange (config : Config) (state : Backfill) (rangeEnd : Nat) :
    OnlyWorks (backfillRange config state rangeEnd) session := by
  refine (onlyWrites_reply _).andWorks fun reply after => ?_
  rcases reply with _ | error | logs
  · trivial
  · change OnlyWorks (ite _ _ _) after
    split <;> trivial
  · refine (onlyWrites_blockAt _).andWorks fun block after => ?_
    exact .andThen (onlyWorks_apply _) fun _ _ =>
      .computes (Backfill.computes_checkAdvance _ _ _ _)

theorem onlyWorks_backfill (config : Config) (origin : Nat) (last : Option Block) :
    OnlyWorks (backfill config turns origin last) session := by
  refine .iterate (fun state session => ?_) turns _
  refine OnlyWrites.andWorks .checkCanceled fun _ after => ?_
  refine (onlyWrites_isSettled state).andWorks fun settled after => ?_
  cases settled with
  | false => trivial
  | true =>
      apply OnlyWrites.get_andThen
      refine (onlyWrites_call _).andWorks fun head after => ?_
      refine OnlyWrites.andWorks (.computes (Backfill.computes_checkNear _ _ _))
        fun isNear after => ?_
      split
      · trivial
      · refine (onlyMoves_enter _).andWorks fun _ after => ?_
        refine OnlyWrites.andWorks (.computes (Backfill.computes_checkEnd _ _ _))
          fun rangeEnd after => ?_
        exact .andThen (onlyWorks_backfillRange config _ _) fun _ _ => trivial

theorem onlyWorks_hotZone (config : Config) (origin : Nat) (last : Option Block) :
    OnlyWorks (hotZone config turns origin last) session := by
  refine onlyMoves_refreshHead.andWorks fun head after => ?_
  split
  · cases last <;> trivial
  · refine (onlyMoves_enter _).andWorks fun _ after => ?_
    refine (onlyWrites_descend turns origin head).andWorks fun run after => ?_
    dsimp only
    split
    · refine (onlyWrites_logsOfBlocks config _).andWorks fun logs after => ?_
      exact .andThen (onlyWorks_apply _) fun _ _ => trivial
    · trivial

theorem onlyWorks_round : OnlyWorks (round setup turns) session := by
  refine .andThen (onlyWorks_origin setup) fun start after => ?_
  refine .andThen (onlyWorks_backfill _ _ _) fun reached after => ?_
  cases reached with
  | none => trivial
  | some reached => exact onlyWorks_hotZone _ _ _

theorem onlyWorks_rounds (left past : Nat) : OnlyWorks (rounds setup turns left past) session := by
  induction left generalizing past session with
  | zero =>
      refine .andThen onlyWorks_round fun block after => ?_
      cases block <;> trivial
  | succ left induction =>
      refine .andThen onlyWorks_round fun block after => ?_
      cases block with
      | some block => trivial
      | none => exact OnlyWrites.andWorks .sleep fun _ _ => induction (past + 1)

theorem onlyWorks_applyDelta (config : Config) (last : Block) (delta : Delta) :
    OnlyWorks (applyDelta config last delta) session := by
  refine (onlyWrites_baseOf last delta).andWorks fun base? after => ?_
  cases base? with
  | none => trivial
  | some base =>
      dsimp only
      split
      · split
        · refine (onlyWrites_logsOfBlocks config _).andWorks fun logs after => ?_
          exact .andThen (onlyWorks_apply _) fun _ _ => trivial
        · trivial
      · trivial

end Session

end ReorgSync
