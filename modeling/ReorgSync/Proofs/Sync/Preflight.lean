import ReorgSync.Proofs.Sync.Identity

namespace ReorgSync.Session

/-! How a call ends whose preflight gets its answers. On the wrong chain it fails, and says
what it found; in an entry that nothing is recorded in, the preflight records the chain. -/

open ChainIdentity

variable {ε ω : Type} [EntryStore ε] [IdentityStore ε] {identity : ChainIdentity}
  {session : Session ε} {world : ω} {setup : Setup} {turns : Nat}
  {ends : Outcome Unit → Session ε → ω → Prop} {holds : Session ε → Prop}

theorem keeps_call_served {call : Node.Call}
    (isServed : ∀ reply, Served (.cancelableNode call) reply →
      ∃ value, reply = some (Except.ok value))
    (stable : ∀ before after, Shares identity before after → holds before → holds after)
    (start : holds session) :
    (Session.call call).Keeps (identity.servingConduct (Shares identity)) (fun _ _ => True)
      (Outcome.Meets (fun value after _ => holds after ∧ identity.Truthful call (.ok value) ∧
        Served (.cancelableNode call) (some (.ok value))) fun _ _ => False) session world := by
  have checked : Routine.checkCanceled.Keeps (identity.servingConduct (Shares identity))
      (fun _ _ => True) (Outcome.Meets (fun _ after _ => holds after) fun _ _ => False) session
        world := by
    intro canceled now early passed
    rw [show canceled = false from passed.2]
    exact stable session now passed.1.1 start
  refine checked.andThen fun _ now early holds => ?_
  rw [Routine.node, Routine.cancelable]
  intro reply after later replied
  rcases isServed reply replied.2 with ⟨value, rfl⟩
  exact ⟨stable now after replied.1.1 holds, replied.1.2, replied.2⟩

/-- A preflight that gets its answers comes to settle the identity of the chain. -/
theorem keeps_identify_served
    (stable : ∀ before after, Shares identity before after → holds before → holds after)
    (start : holds session)
    (settles : ∀ now (late : ω), holds now →
      (settleIdentity identity).Keeps (identity.servingConduct (Shares identity))
        (fun _ _ => True) ends now late) :
    identify.Keeps (identity.servingConduct (Shares identity)) (fun _ _ => True) ends session
      world := by
  rw [identify_eq]
  refine ⟨trivial, ?_⟩
  have entered : holds { session with phase := .preflight } :=
    stable session _ (Moves.shares ⟨rfl, rfl, rfl⟩) start
  have genesisServed : ∀ reply, Served (.cancelableNode (.blockByTag (.number 0))) reply →
      ∃ value, reply = some (Except.ok value) := fun _ ⟨genesis, same⟩ => ⟨some genesis, same⟩
  refine (keeps_call_served genesisServed stable entered).bind ?_ (fun _ _ _ => False.elim)
    fun _ _ _ => False.elim
  rintro found now late ⟨holds, isGenesis, genesis, same⟩
  cases same
  have chainServed : ∀ reply, Served (.cancelableNode .chainId) reply →
      ∃ value, reply = some (Except.ok value) := fun _ served => served
  refine (keeps_call_served chainServed stable holds).bind ?_
    (fun _ _ _ => False.elim) fun _ _ _ => False.elim
  rintro chainId now late ⟨holds, isChain, -⟩
  have same : (⟨chainId, genesis.hash⟩ : ChainIdentity) = identity := by
    rw [show genesis.hash = identity.genesisHash from isGenesis,
      show chainId = identity.chainId from isChain]
  rw [same]
  exact settles now late holds

/-! ## Other chains -/

/-- Whatever is answered, the routine ends with an error. -/
abbrev FailsWith (identity : ChainIdentity) (error : SyncError) (routine : Routine (Session ε) α)
    (session : Session ε) (world : ω) : Prop :=
  routine.Keeps (identity.servingConduct (Shares identity)) (fun _ _ => True)
    (fun outcome _ _ => outcome = .error error) session world

namespace FailsWith

variable {error : SyncError}

theorem bind {first : Routine (Session ε) α} {second : α → Routine (Session ε) β}
    (fails : FailsWith identity error first session world) :
    FailsWith identity error (first >>= second) session world :=
  Routine.Keeps.sequence fails nofun (fun _ _ _ same => by cases same; rfl) nofun

theorem attempt {routine : Routine (Session ε) α}
    (fails : FailsWith identity error routine session world) :
    routine.attempt.Keeps (identity.servingConduct (Shares identity)) (fun _ _ => True)
      (fun outcome _ _ => outcome = .value (.error error)) session world := by
  refine (Routine.Keeps.attempted fails).mono fun outcome _ _ ended => ?_
  rcases outcome with (cause | value) | cause | _
  · cases ended
    rfl
  · cases ended
  · exact ended.elim
  · cases ended

theorem concluding {work : Routine (Session ε) α}
    (fails : FailsWith identity error work session world) :
    FailsWith identity error (Session.concluding work) session world := by
  refine Routine.Keeps.sequence fails.attempt ?_ nofun nofun
  rintro _ after later ⟨⟩
  exact ⟨trivial, rfl⟩

end FailsWith

theorem failsWith_settleIdentity {recorded : ChainIdentity}
    (reads : EntryStore.identity session.entry = .ok (some recorded))
    (differs : recorded ≠ identity) :
    FailsWith identity (recorded.mismatch identity) (settleIdentity identity) session world := by
  change FailsWith identity _ (Routine.ofExcept (EntryStore.identity session.entry) >>= _) session
    world
  rw [reads, mismatch]
  change FailsWith identity _ (ite _ _ _) session world
  split
  case isTrue otherChain => exact rfl
  case isFalse sameChain =>
    split
    case isTrue otherGenesis => exact rfl
    case isFalse sameGenesis =>
      rcases recorded with ⟨chainId, genesisHash⟩
      rw [not_not] at sameChain sameGenesis
      cases sameChain
      cases sameGenesis
      exact absurd rfl differs

theorem failsWith_identifyOnce {recorded : ChainIdentity} (isNew : session.isIdentified = false)
    (reads : EntryStore.identity session.entry = .ok (some recorded))
    (differs : recorded ≠ identity) :
    FailsWith identity (recorded.mismatch identity) identifyOnce session world := by
  have stable : ∀ before after : Session ε, Shares identity before after →
      EntryStore.identity before.entry = .ok (some recorded) →
        EntryStore.identity after.entry = .ok (some recorded) := by
    intro before after shares reads
    rw [shares.entry.eq_of_other reads differs]
    exact reads
  have identifies : FailsWith identity (recorded.mismatch identity) identify session world :=
    keeps_identify_served stable reads fun now late reads => failsWith_settleIdentity reads differs
  change FailsWith identity _ (ite _ _ _) session world
  rw [isNew, if_neg Bool.false_ne_true]
  exact identifies.bind

theorem failsWith_catchUp {recorded : ChainIdentity} (isNew : session.isIdentified = false)
    (reads : EntryStore.identity session.entry = .ok (some recorded))
    (differs : recorded ≠ identity) :
    FailsWith identity (recorded.mismatch identity) (catchUp setup turns) session world :=
  (failsWith_identifyOnce isNew reads differs).bind

/-- On the wrong chain every call fails, and says how the chain differs. -/
theorem failsWith_call {recorded : ChainIdentity} (job : Job)
    (isNew : session.isIdentified = false)
    (reads : EntryStore.identity session.entry = .ok (some recorded))
    (differs : recorded ≠ identity) :
    FailsWith identity (recorded.mismatch identity) (job.call setup) session world := by
  cases job with
  | sync turns => exact (failsWith_catchUp isNew reads differs).concluding.bind
  | run turns =>
      have follows : FailsWith identity (recorded.mismatch identity) (follow setup turns) session
          world :=
        Routine.Keeps.get_andThen (failsWith_catchUp isNew reads differs).bind.bind
      refine Routine.Keeps.sequence follows.concluding.attempt ?_ nofun nofun
      rintro _ after later ⟨⟩
      dsimp only
      rw [isCanceled_mismatch]
      exact rfl

/-! ## New entries -/

/-- Nothing is recorded yet, and the chain can be recorded; or it is. -/
def CanOwn (identity : ChainIdentity) (session : Session ε) : Prop :=
  identity.Owns session.entry ∨
    EntryStore.identity session.entry = .ok none ∧
      ∃ recorded, EntryStore.record session.entry identity = .ok recorded

theorem CanOwn.shares {before after : Session ε} (canOwn : CanOwn identity before)
    (shares : Shares identity before after) : CanOwn identity after := by
  rcases canOwn with owns | canRecord
  · exact .inl (shares.entry.owns owns)
  · rcases shares.entry with same | ⟨-, owns⟩
    · rw [CanOwn, same]
      exact .inr canRecord
    · exact .inl owns

theorem keeps_settleIdentity (sound : session.IsTrueTo identity)
    (canOwn : CanOwn identity session) :
    (settleIdentity identity).Keeps (identity.servingConduct (Shares identity)) (fun _ _ => True)
      (fun outcome after _ => outcome = .value () ∧ identity.Owns after.entry) session world := by
  change (Routine.ofExcept (EntryStore.identity session.entry) >>= _).Keeps _ _ _ session world
  rcases canOwn with owns | ⟨isNew, recorded, records⟩
  · rw [owns.recorded]
    change (ite _ _ _ : Routine (Session ε) Unit).Keeps _ _ _ session world
    rw [if_neg (not_not.mpr rfl), if_neg (not_not.mpr rfl)]
    exact ⟨rfl, owns⟩
  · rw [isNew]
    change (Routine.ofExcept (EntryStore.record session.entry identity) >>= _).Keeps _ _ _ session
      world
    rw [records]
    exact ⟨trivial, rfl, owns_record sound.accepts records⟩

theorem keeps_identifyOnce_served (sound : session.IsTrueTo identity)
    (canOwn : CanOwn identity session) :
    identifyOnce.Keeps (identity.servingConduct (Shares identity)) (fun _ _ => True)
      (fun outcome after _ => outcome = .value () ∧ identity.Owns after.entry) session world := by
  change (ite _ _ _ : Routine (Session ε) Unit).Keeps _ _ _ session world
  split
  case isTrue isIdentified => exact ⟨rfl, sound.owns isIdentified⟩
  case isFalse =>
    -- Others may record the chain while its answers are awaited; the session can own the entry
    -- before and after that.
    have stable : ∀ before after : Session ε, Shares identity before after →
        before.IsTrueTo identity ∧ CanOwn identity before →
          after.IsTrueTo identity ∧ CanOwn identity after :=
      fun before after shares holds => ⟨holds.1.shares shares, holds.2.shares shares⟩
    refine Routine.Keeps.sequence (keeps_identify_served stable ⟨sound, canOwn⟩
      fun now late holds => keeps_settleIdentity holds.1 holds.2) ?_ ?_ ?_
    · rintro _ after later ⟨-, owns⟩
      exact ⟨trivial, rfl, owns⟩
    · rintro error after later ⟨never, -⟩
      cases never
    · rintro cause after later ⟨never, -⟩
      cases never

end ReorgSync.Session
