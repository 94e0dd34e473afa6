import ReorgSync.Proofs.Store.Identity
import ReorgSync.Proofs.Sync.ChangeLog

namespace ReorgSync

/-! A session compares the identity of the node's chain with the one that is recorded in
its entry before it stores anything. Several sessions may share an entry: each of them
relies on the others to do the same. -/

/-! ## Nodes of a chain -/

namespace ChainIdentity

/-- What a node of the chain may reply; it may also fail. -/
def Truthful (identity : ChainIdentity) : (call : Node.Call) → call.Reply → Prop
  | .chainId, .ok chainId => chainId = identity.chainId
  | .blockByTag (.number 0), .ok (some genesis) => genesis.hash = identity.genesisHash
  | _, _ => True

def Answers (identity : ChainIdentity) : (query : Query) → query.Answer → Prop
  | .node call, reply => identity.Truthful call reply
  | .cancelableNode call, some reply => identity.Truthful call reply
  | _, _ => True

/-- The conduct of surroundings with a node of the chain. -/
def conduct (identity : ChainIdentity) (meanwhile : σ → σ → Prop) : Conduct σ ω :=
  fun query before _ answer after _ => meanwhile before after ∧ identity.Answers query answer

/-- The questions of a preflight are answered, and it is not canceled. -/
def Served : (query : Query) → query.Answer → Prop
  | .cancelableNode (.blockByTag (.number 0)), reply => ∃ genesis, reply = some (.ok (some genesis))
  | .cancelableNode .chainId, reply => ∃ chainId, reply = some (.ok chainId)
  | .isCanceled, isCanceled => isCanceled = false
  | _, _ => True

/-- The same conduct where a preflight succeeds. -/
def servingConduct (identity : ChainIdentity) (meanwhile : σ → σ → Prop) : Conduct σ ω :=
  fun query before early answer after late =>
    identity.conduct meanwhile query before early answer after late ∧ Served query answer

/-- Why a node of another chain is refused. -/
def mismatch (recorded actual : ChainIdentity) : SyncError :=
  if recorded.chainId ≠ actual.chainId then .chainMismatch recorded.chainId actual.chainId
  else .genesisMismatch recorded.genesisHash actual.genesisHash

theorem isCanceled_mismatch (recorded actual : ChainIdentity) :
    (recorded.mismatch actual).isCanceled = false := by
  rw [mismatch]
  split <;> rfl

/-! ## Entries -/

variable {ε : Type} [EntryStore ε] [IdentityStore ε] {identity : ChainIdentity}
  {before between after : ε}

/-- The entry is known to belong to the chain. -/
structure Owns (identity : ChainIdentity) (entry : ε) : Prop where
  accepts : IdentityStore.Accepts entry identity
  recorded : EntryStore.identity entry = .ok (some identity)

/-- What a session does to an entry in one step. -/
inductive Touches (identity : ChainIdentity) (before after : ε) : Prop
  | leaves (same : after = before)
  | records (isNew : EntryStore.identity before = .ok none)
      (recorded : EntryStore.record before identity = .ok after)
  | stores (event : Event) (owns : identity.Owns before)
      (stored : EntryStore.apply before event = .ok after)

/-- What becomes of an entry while sessions work on it. -/
def Leads (identity : ChainIdentity) (before after : ε) : Prop :=
  after = before ∨
    (EntryStore.identity before = .ok none ∨ EntryStore.identity before = .ok (some identity)) ∧
      identity.Owns after

theorem Leads.trans (earlier : identity.Leads before between)
    (later : identity.Leads between after) : identity.Leads before after := by
  rcases earlier with rfl | ⟨isOpen, owns⟩
  · exact later
  · rcases later with rfl | ⟨-, ownsThen⟩
    · exact .inr ⟨isOpen, owns⟩
    · exact .inr ⟨isOpen, ownsThen⟩

theorem Leads.accepts (leads : identity.Leads before after)
    (accepts : IdentityStore.Accepts before identity) : IdentityStore.Accepts after identity := by
  rcases leads with rfl | ⟨-, owns⟩
  · exact accepts
  · exact owns.accepts

theorem Leads.owns (leads : identity.Leads before after) (owns : identity.Owns before) :
    identity.Owns after := by
  rcases leads with rfl | ⟨-, owns⟩
  · exact owns
  · exact owns

theorem Leads.eq_of_other {other : ChainIdentity} (leads : identity.Leads before after)
    (recorded : EntryStore.identity before = .ok (some other)) (differs : other ≠ identity) :
    after = before := by
  rcases leads with rfl | ⟨isNew | isOwn, -⟩
  · rfl
  · cases recorded.symm.trans isNew
  · cases recorded.symm.trans isOwn
    exact absurd rfl differs

theorem Owns.apply {event : Event} (owns : identity.Owns before)
    (stored : EntryStore.apply before event = .ok after) : identity.Owns after := by
  have kept := IdentityStore.apply_keeps owns.accepts stored
  exact ⟨kept.1, kept.2.trans owns.recorded⟩

theorem owns_record (accepts : IdentityStore.Accepts before identity)
    (recorded : EntryStore.record before identity = .ok after) : identity.Owns after := by
  have kept := IdentityStore.record_keeps accepts recorded
  exact ⟨kept.1, kept.2⟩

theorem Touches.leads (touches : identity.Touches before after)
    (accepts : IdentityStore.Accepts before identity) : identity.Leads before after := by
  cases touches with
  | leaves same => exact .inl same
  | records isNew recorded => exact .inr ⟨.inl isNew, owns_record accepts recorded⟩
  | stores event owns stored => exact .inr ⟨.inr owns.recorded, owns.apply stored⟩

end ChainIdentity

/-! ## Sessions -/

namespace Session

open Routine (Guarantees)

variable {ε ω : Type} [EntryStore ε] [IdentityStore ε] {identity : ChainIdentity}
  {session before between after : Session ε} {world : ω} {setup : Setup} {turns : Nat}

/-- One write of a session. Only in an entry that belongs to the chain are events stored
and published, and is the chain taken to be identified. -/
structure WritesOn (identity : ChainIdentity) (before after : Session ε) : Prop where
  entry : identity.Touches before.entry after.entry
  events : after.events = before.events ∨ identity.Owns before.entry
  isIdentified : after.isIdentified = true →
    before.isIdentified = true ∨ identity.Owns before.entry

/-- What may happen to a session beside others. -/
structure Shares (identity : ChainIdentity) (before after : Session ε) : Prop where
  entry : identity.Leads before.entry after.entry
  events : after.events = before.events
  isIdentified : after.isIdentified = before.isIdentified

theorem Shares.trans (earlier : Shares identity before between)
    (later : Shares identity between after) : Shares identity before after where
  entry := earlier.entry.trans later.entry
  events := later.events.trans earlier.events
  isIdentified := later.isIdentified.trans earlier.isIdentified

/-- A session that has identified the chain is right about it. -/
structure IsTrueTo (session : Session ε) (identity : ChainIdentity) : Prop where
  accepts : IdentityStore.Accepts session.entry identity
  owns : session.isIdentified = true → identity.Owns session.entry

theorem IsTrueTo.shares (sound : before.IsTrueTo identity) (shares : Shares identity before after) :
    after.IsTrueTo identity where
  accepts := shares.entry.accepts sound.accepts
  owns isIdentified := shares.entry.owns (sound.owns (shares.isIdentified ▸ isIdentified))

theorem stable_isTrueTo (before after : Session ε) (shares : Shares identity before after)
    (sound : before.IsTrueTo identity) : after.IsTrueTo identity :=
  sound.shares shares

theorem Moves.shares (moves : Moves before after) : Shares identity before after where
  entry := .inl moves.entry
  events := moves.events
  isIdentified := moves.isIdentified

theorem Moves.writesOn (moves : Moves before after) : WritesOn identity before after where
  entry := .leaves moves.entry
  events := .inl moves.events
  isIdentified isIdentified := .inl (moves.isIdentified ▸ isIdentified)

theorem Works.writesOn (works : Works before after) (owns : identity.Owns before.entry) :
    WritesOn identity before after where
  entry := by
    cases works with
    | moves moves => exact .leaves moves.entry
    | stores event stored => exact .stores event owns stored
    | publishes event entry => exact .leaves entry
  events := .inr owns
  isIdentified _ := .inr owns

/-- Work of a session beside others. -/
abbrev Obeys (identity : ChainIdentity) (met : α → Session ε → Prop)
    (routine : Routine (Session ε) α) (session : Session ε) (world : ω) : Prop :=
  routine.Guarantees (identity.conduct (Shares identity)) (WritesOn identity) met session world

theorem OnlyMoves.obeys {holds : Session ε → Prop} {routine : Routine (Session ε) α}
    (only : OnlyMoves routine session)
    (stable : ∀ before after, Shares identity before after → holds before → holds after)
    (start : holds session) : Obeys identity (fun _ => holds) routine session world :=
  .of_onlyWrites only
    (fun before after holds moves => ⟨moves.writesOn, stable before after moves.shares holds⟩)
    (fun _ before _ _ after _ accepted => stable before after accepted.1) start

theorem OnlyWorks.obeys {routine : Routine (Session ε) α} (only : OnlyWorks routine session)
    (owns : identity.Owns session.entry) :
    Obeys identity (fun _ after => identity.Owns after.entry) routine session world := by
  apply Guarantees.of_onlyWrites only
  · intro before after owns works
    have writes := works.writesOn owns
    exact ⟨writes, (writes.entry.leads owns.accepts).owns owns⟩
  · intro _ before _ _ after _ accepted owns
    exact accepted.1.entry.owns owns
  · exact owns

/-! ## The preflight -/

/-- What a preflight does as soon as it knows the identity of the node's chain. -/
def settleIdentity (actual : ChainIdentity) : Routine (Session ε) Unit := do
  match ← readEntry EntryStore.identity with
  | none => changeEntry (EntryStore.record · actual)
  | some recorded =>
      if recorded.chainId ≠ actual.chainId then
        .fail (.chainMismatch recorded.chainId actual.chainId)
      else if recorded.genesisHash ≠ actual.genesisHash then
        .fail (.genesisMismatch recorded.genesisHash actual.genesisHash)
      else return ()

omit [IdentityStore ε] in
theorem identify_eq : (identify : Routine (Session ε) Unit) = (do
    enter .preflight
    let genesis ← blockOr "0" (← call (.blockByTag (.number 0)))
    let chainId ← call .chainId
    settleIdentity ⟨chainId, genesis.hash⟩) := rfl

theorem obeys_call (call : Node.Call) (sound : session.IsTrueTo identity) :
    Obeys identity (fun value after =>
      identity.Truthful call (.ok value) ∧ after.IsTrueTo identity)
      (Session.call call) session world := by
  have checked : OnlyMoves Routine.checkCanceled session := .checkCanceled
  refine .andThen (checked.obeys stable_isTrueTo sound) fun _ now early sound => ?_
  -- What was known of the session is known of what others have left of it by the reply.
  rw [Routine.node, Routine.cancelable]
  intro reply after later replied
  rcases reply with _ | _ | value
  · trivial
  · trivial
  · exact ⟨replied.2, sound.shares replied.1⟩

theorem obeys_blockOr {name : String} {found : Option Block} {holds : Block → Session ε → Prop}
    (isFound : ∀ block, found = some block → holds block session) :
    Obeys identity holds (blockOr name found) session world := by
  cases found with
  | none => trivial
  | some block => exact isFound block rfl

theorem obeys_settleIdentity (sound : session.IsTrueTo identity) :
    Obeys identity (fun _ after => identity.Owns after.entry) (settleIdentity identity) session
      world := by
  apply guarantees_readEntry
  intro recorded? reads
  cases recorded? with
  | none =>
      -- Nothing is asked between reading and recording, so no one else records meanwhile.
      apply guarantees_readEntry
      intro entry recorded
      refine ⟨⟨.records reads recorded, .inl rfl, .inl⟩, ?_⟩
      exact ChainIdentity.owns_record sound.accepts recorded
  | some recorded =>
      dsimp only
      split
      case isTrue => trivial
      case isFalse sameChain =>
        split
        case isTrue => trivial
        case isFalse sameGenesis =>
          rcases recorded with ⟨chainId, genesisHash⟩
          rw [not_not] at sameChain sameGenesis
          cases sameChain
          cases sameGenesis
          exact ⟨sound.accepts, reads⟩

theorem obeys_identify (sound : session.IsTrueTo identity) :
    Obeys identity (fun _ after => identity.Owns after.entry) identify session world := by
  rw [identify_eq]
  refine .andThen ((onlyMoves_enter _).obeys stable_isTrueTo sound) fun _ after later sound => ?_
  refine .andThen (obeys_call _ sound) fun found after later asked => ?_
  rcases asked with ⟨isGenesis, sound⟩
  have isOwn : Obeys identity (fun genesis after => genesis.hash = identity.genesisHash ∧
      after.IsTrueTo identity) (blockOr "0" found) after later := by
    apply obeys_blockOr
    rintro genesis rfl
    exact ⟨isGenesis, sound⟩
  refine .andThen isOwn fun genesis after later holds => ?_
  refine .andThen (obeys_call .chainId holds.2) fun chainId after later asked => ?_
  rcases asked with ⟨isChain, sound⟩
  have same : (⟨chainId, genesis.hash⟩ : ChainIdentity) = identity := by
    rw [holds.1, show chainId = identity.chainId from isChain]
  rw [same]
  exact obeys_settleIdentity sound

theorem obeys_identifyOnce (sound : session.IsTrueTo identity) :
    Obeys identity (fun _ after => identity.Owns after.entry) identifyOnce session world := by
  change Obeys identity _ (ite _ _ _) session world
  split
  case isTrue isIdentified => exact sound.owns isIdentified
  case isFalse =>
    refine .andThen (obeys_identify sound) fun _ after later owns => ?_
    exact ⟨⟨.leaves rfl, .inl rfl, fun _ => .inr owns⟩, owns⟩

/-! ## Calls of a session -/

theorem obeys_catchUp (sound : session.IsTrueTo identity) :
    Obeys identity (fun _ after => identity.Owns after.entry) (catchUp setup turns) session
      world :=
  .andThen (obeys_identifyOnce sound) fun _ _ _ owns => (onlyWorks_rounds _ _).obeys owns

theorem obeys_concluding {met : α → Session ε → Prop} {work : Routine (Session ε) α}
    (obeys : Obeys identity met work session world) :
    Obeys identity met (concluding work) session world := by
  refine .andThen (Guarantees.attempt obeys) fun outcome after later holds => ?_
  cases outcome with
  | ok value => exact holds value rfl
  | error error => exact ⟨Moves.writesOn ⟨rfl, rfl, rfl⟩, trivial⟩

theorem obeys_resume (position : Nat) (sound : session.IsTrueTo identity) :
    Obeys identity (fun _ after => identity.Owns after.entry) (resume setup turns position)
      session world := by
  refine .andThen (obeys_catchUp sound) fun last after later owns => ?_
  exact ⟨Moves.writesOn ⟨rfl, rfl, rfl⟩, owns⟩

theorem obeys_liveStep (live : Live) (owns : identity.Owns session.entry) :
    Obeys identity (fun _ after => identity.Owns after.entry) (liveStep setup turns live)
      session world := by
  have resumes : ∀ (position : Nat) (after : Session ε) (later : ω), identity.Owns after.entry →
      Obeys identity (fun _ after => identity.Owns after.entry)
        (resume setup turns position >>= fun live => pure (.inl live : Live ⊕ Empty)) after
        later := fun position after later owns =>
    .andThen (obeys_resume position ⟨owns.accepts, fun _ => owns⟩) fun _ _ _ owns => owns
  apply Guarantees.get_andThen
  dsimp only
  split
  · exact resumes _ session world owns
  · intro canceled after later passed
    cases canceled with
    | true => trivial
    | false => exact passed.1.entry.owns owns
  · refine .andThen ((onlyWorks_applyDelta _ _ _).obeys owns) fun step after later owns => ?_
    cases step with
    | applied newest => exact owns
    | skipped => exact owns
    | gap => exact resumes _ after later owns

theorem obeys_follow (sound : session.IsTrueTo identity) :
    Obeys identity (fun _ _ => True) (follow setup turns) session world := by
  apply Guarantees.get_andThen
  refine .andThen (obeys_resume _ sound) fun live after later owns => ?_
  refine Guarantees.iterate (fun _ session => identity.Owns session.entry) ?_ turns live owns
  intro live session world owns
  refine (obeys_liveStep live owns).mono fun turn _ owns => ?_
  cases turn with
  | inl live => exact owns
  | inr never => exact never.elim

/-- Every call of a session keeps to what it may write beside others. -/
theorem obeys_job (job : Job) (sound : session.IsTrueTo identity) :
    Obeys identity (fun _ _ => True) (job.call setup) session world := by
  cases job with
  | sync turns =>
      exact .andThen (obeys_concluding (obeys_catchUp sound)) fun _ _ _ _ => trivial
  | run turns =>
      refine .andThen (Guarantees.attempt (obeys_concluding (obeys_follow sound)))
        fun outcome after later _ => ?_
      cases outcome with
      | ok never => cases never
      | error error =>
          dsimp only
          split <;> trivial

end Session

end ReorgSync
