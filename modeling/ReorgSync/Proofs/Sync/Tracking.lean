import ReorgSync.Proofs.Routine.Loops
import ReorgSync.Proofs.Sync.LiveLoop
import ReorgSync.Proofs.Sync.Start

namespace ReorgSync

/-! A session reads once in each round where its entry ends. From there on it carries that
block along, through rollbacks, batches, repeated rounds and deltas, and trusts it. As long
as no one else writes the entry, the two never part. -/

/-- A base for a delta that fits what is stored: the stored block itself, or what lies in
front of the blocks that the delta takes back, if the stored block is one of these. Then it
names the logs behind its cut. -/
inductive Base.Suits (ledger : Ledger) (delta : Delta) : Base → Prop
  | unchanged {last : Block} (ends : ledger.lastBlock = some last) :
      Suits ledger delta { number := last.number, hash := last.hash }
  | rollback {last first displaced : Block} {rest : List Block} {cut : Nat}
      (ends : ledger.lastBlock = some last) (removed : delta.removed = first :: rest)
      (member : displaced ∈ delta.removed) (same : displaced.hash = last.hash)
      (reaches : first.number ≤ last.number) (within : cut ≤ ledger.logs.length) :
      Suits ledger delta {
        number := first.number - 1
        hash := first.parentHash
        truncateTo := some cut
        removed := ledger.logs.drop cut }

namespace Session

open Routine (Keeps OnlyWrites Turn Turns)

variable {ε ω : Type} [EntryStore ε] [RecallingStore ε] {session : Session ε} {world : ω}
  {setup : Setup} {turns : Nat} {last : Block}

/-- Work of the only writer of an entry, and what holds of the session when it has ended with
a value. -/
abbrev Tracks (met : α → Session ε → Prop) (routine : Routine (Session ε) α) (session : Session ε)
    (world : ω) : Prop :=
  routine.Keeps (Conduct.free besideLedger) (fun _ _ => True)
    (Outcome.Meets (fun value after _ => met value after) fun _ _ => True) session world

theorem tracks_after_quiet {met : β → Session ε → Prop} {first : Routine (Session ε) α}
    {second : α → Routine (Session ε) β}
    (quietly : first.Quietly (Conduct.free besideLedger) besideLedger (fun _ _ _ => True) session
      world)
    (continues : ∀ value after (later : ω), after.ledger = session.ledger →
      Tracks met (second value) after later) :
    Tracks met (first >>= second) session world :=
  (quietly.keeps (fun _ _ _ => trivial) fun _ _ _ => trivial).andThen
    fun value after later holds => continues value after later holds.1.1

/-- Work that only moves a session on, in front of work that stores. -/
theorem tracks_after_look {met : β → Session ε → Prop} {first : Routine (Session ε) α}
    {second : α → Routine (Session ε) β} (only : OnlyMoves first session)
    (continues : ∀ value after (later : ω), after.ledger = session.ledger →
      Tracks met (second value) after later) :
    Tracks met (first >>= second) session world :=
  tracks_after_quiet only.leavesLedger continues

theorem tracks_readEntry {met : β → Session ε → Prop} {read : ε → Except SyncError α}
    {second : α → Routine (Session ε) β}
    (continues : ∀ value, read session.entry = .ok value →
      Tracks met (second value) session world) :
    Tracks met (readEntry read >>= second) session world := by
  show Tracks met (Routine.ofExcept (read session.entry) >>= second) session world
  cases found : read session.entry with
  | error error => trivial
  | ok value => exact continues value found

theorem tracks_apply (event : Event) :
    Tracks (fun _ after => after.ledger.lastBlock = some event.block) (Session.apply event) session
      world := by
  rw [Session.apply, changeEntry, bind_assoc]
  apply tracks_readEntry
  intro stored applied
  have follows : FaithfulStore.ledger stored = session.ledger.follow event :=
    FaithfulStore.ledger_apply applied
  exact ⟨trivial, trivial, congrArg Ledger.lastBlock follows⟩

/-! ## One round -/

theorem tracks_reconcilePosition (ends : session.ledger.lastBlock = some last) :
    Tracks (fun ancestor after => after.ledger.lastBlock = some ancestor) (reconcilePosition last)
      session world := by
  apply tracks_after_look (onlyWrites_call _)
  intro head after later same
  split
  · trivial
  · apply tracks_after_look (onlyWrites_blockAt _)
    intro canonical after later sameThen
    split
    · show after.ledger.lastBlock = some last
      rw [sameThen, same]
      exact ends
    · apply Keeps.get_andThen
      apply tracks_after_look (onlyWrites_commonAncestor _ _ _ _ _)
      intro ancestor after later _
      refine Keeps.computes (.sum _ _) ?_ fun _ _ => trivial
      apply tracks_readEntry
      intro parts _
      exact (tracks_apply _).andThen fun _ _ _ ends => ends

theorem tracks_origin (setup : Setup) :
    Tracks (fun place after => after.ledger.lastBlock = place.2) (origin setup) session world := by
  apply tracks_readEntry
  intro last? read
  have ends : last? = session.ledger.lastBlock := RecallingStore.lastBlock_eq read
  cases last? with
  | some last =>
      apply (tracks_reconcilePosition ends.symm).andThen
      exact fun _ _ _ ends => .computes (.sum _ _) ends fun _ _ => trivial
  | none =>
      apply tracks_after_look (onlyWrites_start setup)
      intro origin after later same
      show after.ledger.lastBlock = none
      rw [same]
      exact ends.symm

theorem tracks_backfillRange {config : Config} {state : Backfill} {rangeEnd : Nat}
    (ends : session.ledger.lastBlock = state.last) :
    Tracks (fun next after => after.ledger.lastBlock = next.last)
      (backfillRange config state rangeEnd) session world := by
  apply tracks_after_look (onlyWrites_reply _)
  intro reply after later same
  rcases reply with _ | error | logs
  · trivial
  · dsimp only
    split
    · show after.ledger.lastBlock = state.last
      rw [same]
      exact ends
    · trivial
  · apply tracks_after_look (onlyWrites_blockAt _)
    intro block after later _
    apply (tracks_apply _).andThen
    exact fun _ _ _ ends => (Backfill.computes_checkAdvance _ _ _ _).keeps ends fun _ => trivial

theorem tracks_backfillStep {config : Config} {state : Backfill}
    (ends : session.ledger.lastBlock = state.last) :
    Tracks (fun turn after =>
      match turn with
      | .inl next => after.ledger.lastBlock = next.last
      | .inr reached => ∀ next ∈ reached, after.ledger.lastBlock = next.last)
      (backfillStep config state) session world := by
  apply tracks_after_look .checkCanceled
  intro _ after later same
  apply tracks_after_look (onlyWrites_isSettled state)
  intro isSettled after later sameThen
  have ends : after.ledger.lastBlock = state.last := by
    rw [sameThen, same]
    exact ends
  cases isSettled with
  | false =>
      show ∀ next ∈ none, _
      nofun
  | true =>
      apply Keeps.get_andThen
      apply tracks_after_look (onlyWrites_call _)
      intro head after later same
      rw [← same] at ends
      refine .computes (Backfill.computes_checkNear _ _ _) ?_ fun _ _ => trivial
      split
      · intro next isNext
        cases isNext
        exact ends
      · apply tracks_after_look (onlyMoves_enter _)
        intro _ after later same
        rw [← same] at ends
        refine .computes (Backfill.computes_checkEnd _ _ _) ?_ fun _ _ => trivial
        have ranged : ∀ rangeEnd, Tracks (fun next after => after.ledger.lastBlock = next.last)
            (backfillRange config { state with isVerified := true } rangeEnd) after later :=
          fun _ => tracks_backfillRange ends
        exact (ranged _).andThen fun _ _ _ ends => ends

theorem tracks_backfill {config : Config} {origin : Nat} {last? : Option Block}
    (ends : session.ledger.lastBlock = last?) :
    Tracks (fun reached after => ∀ state ∈ reached, after.ledger.lastBlock = state.last)
      (backfill config turns origin last?) session world := by
  apply Keeps.iterate fun state after _ => after.ledger.lastBlock = state.last
  · intro state session world ends
    apply (tracks_backfillStep ends).weaken
    · intro turn after later holds
      cases turn with
      | inl next => exact holds
      | inr reached => exact holds
    · exact fun _ _ holds => holds
  · exact fun _ _ _ _ => trivial
  · exact ends

/-- The blocks of a hot zone become the end of the entry, or nothing is stored. -/
theorem tracks_hotZone {config : Config} {origin : Nat} {last? : Option Block}
    (ends : session.ledger.lastBlock = last?) :
    Tracks (fun reached after => ∀ block ∈ reached, after.ledger.lastBlock = some block)
      (hotZone config turns origin last?) session world := by
  apply tracks_after_look onlyMoves_refreshHead
  intro head after later same
  split
  · cases last? with
    | none => trivial
    | some last =>
        intro block isBlock
        cases isBlock
        show after.ledger.lastBlock = some last
        rw [same]
        exact ends
  · apply tracks_after_look (onlyMoves_enter _)
    intro _ after later _
    apply tracks_after_look (onlyWrites_descend turns origin head)
    intro run after later _
    dsimp only
    split
    · apply tracks_after_look (onlyWrites_logsOfBlocks config _)
      intro logs after later _
      apply (tracks_apply _).andThen
      intro _ after later ends block isBlock
      cases isBlock
      exact ends
    · show ∀ block ∈ none, _
      nofun

theorem tracks_round (setup : Setup) (turns : Nat) :
    Tracks (fun reached after => ∀ block ∈ reached, after.ledger.lastBlock = some block)
      (round setup turns) session world := by
  apply (tracks_origin setup).andThen
  intro place after later ends
  apply (tracks_backfill ends).andThen
  intro reached after later ends
  cases reached with
  | none =>
      show ∀ block ∈ none, _
      nofun
  | some state => exact tracks_hotZone (ends state rfl)

/-! ## Synchronising -/

theorem tracks_rounds (left past : Nat) :
    Tracks (fun block after => after.ledger.lastBlock = some block) (rounds setup turns left past)
      session world := by
  induction left generalizing past session world with
  | zero =>
      apply (tracks_round setup turns).andThen
      intro reached after later ends
      cases reached with
      | none => trivial
      | some block => exact ends block rfl
  | succ left induction =>
      apply (tracks_round setup turns).andThen
      intro reached after later ends
      cases reached with
      | none => exact tracks_after_look .sleep fun _ _ _ _ => induction (past + 1)
      | some block => exact ends block rfl

theorem tracks_catchUp :
    Tracks (fun block after => after.ledger.lastBlock = some block) (catchUp setup turns) session
      world :=
  tracks_after_quiet leavesLedger_identifyOnce fun _ _ _ _ => tracks_rounds _ 0

theorem tracks_sync :
    Tracks (fun block after => after.ledger.lastBlock = some block) (sync setup turns) session
      world := by
  apply tracks_catchUp.attempt.andThen
  intro outcome after later ends
  cases outcome with
  | ok block => exact ends
  | error error => exact tracks_after_look (onlyMoves_enter _) fun _ _ _ _ => trivial

/-! ## Following -/

theorem tracks_baseOf {delta : Delta} (ends : session.ledger.lastBlock = some last) :
    Tracks (fun base? after => after.ledger = session.ledger ∧
      ∀ base ∈ base?, base.Suits session.ledger delta) (baseOf last delta) session world := by
  have unchanged : ∀ base ∈ some ({ number := last.number, hash := last.hash } : Base),
      base.Suits session.ledger delta := by
    intro base isBase
    cases isBase
    exact .unchanged ends
  rw [baseOf.eq_def]
  split
  case h_1 => exact ⟨rfl, unchanged⟩
  case h_2 first rest removed =>
    split
    case isTrue => exact ⟨rfl, unchanged⟩
    case isFalse reaches =>
      split
      case isTrue isDisplaced =>
        rcases List.any_eq_true.mp isDisplaced with ⟨displaced, member, same⟩
        apply tracks_readEntry
        intro parts found
        rcases rollbackPoint_exact found with ⟨within, behind⟩
        refine ⟨rfl, ?_⟩
        intro base isBase
        cases isBase
        rw [behind]
        exact .rollback ends removed member (beq_iff_eq.mp same) (Nat.le_of_not_lt reaches) within
      case isFalse =>
        split
        case isTrue => exact ⟨rfl, unchanged⟩
        case isFalse =>
          refine ⟨rfl, fun base isBase => ?_⟩
          cases isBase

theorem tracks_applyDelta {config : Config} {delta : Delta}
    (ends : session.ledger.lastBlock = some last) :
    Tracks (fun step after => after.ledger.lastBlock = some (step.lastAfter last))
      (applyDelta config last delta) session world := by
  apply (tracks_baseOf ends).andThen
  intro base? after later holds
  have ends : after.ledger.lastBlock = some last := by
    rw [holds.1]
    exact ends
  cases base? with
  | none => exact ends
  | some base =>
      dsimp only
      split
      case h_2 => exact ends
      case h_1 =>
        split
        case isFalse => exact ends
        case isTrue =>
          apply tracks_after_look (onlyWrites_logsOfBlocks config _)
          intro logs after later _
          exact (tracks_apply _).andThen fun _ _ _ ends => ends

theorem tracks_resume (position : Nat) :
    Tracks (fun live after => after.ledger.lastBlock = some live.last) (resume setup turns position)
      session world := by
  apply tracks_catchUp.andThen
  intro last after later ends
  apply tracks_after_look (onlyMoves_enter _)
  intro _ after later same
  show after.ledger.lastBlock = some last
  rw [same]
  exact ends

theorem tracks_liveStep {live : Live} (ends : session.ledger.lastBlock = some live.last) :
    Tracks (fun turn after => ∀ next, turn = .inl next → after.ledger.lastBlock = some next.last)
      (liveStep setup turns live) session world := by
  have resumes : ∀ (position : Nat) (now : Session ε) (late : ω),
      Tracks (fun turn after => ∀ next, turn = .inl next → after.ledger.lastBlock = some next.last)
        (resume setup turns position >>= fun live => pure (.inl live : Live ⊕ Empty)) now late := by
    intro position now late
    apply (tracks_resume position).andThen
    intro live after later ends next isNext
    cases isNext
    exact ends
  apply Keeps.get_andThen
  dsimp only
  split
  case h_1 => exact resumes _ session world
  case h_2 =>
    intro canceled after later passed
    cases canceled with
    | true => trivial
    | false =>
        intro next isNext
        cases isNext
        show after.ledger.lastBlock = some live.last
        rw [passed.1]
        exact ends
  case h_3 delta found =>
    apply (tracks_applyDelta ends).andThen
    intro step after later ends
    cases step with
    | applied newest =>
        intro next isNext
        cases isNext
        exact ends
    | skipped =>
        intro next isNext
        cases isNext
        exact ends
    | gap => exact resumes _ after later

/-- The block that a synchronisation answers is the one that the entry ends at. The live
loop starts with that block, and between any two of its turns it stands at the block that
the entry ends at then. So the base that it computes for a delta suits what is stored. -/
theorem tracked_position_is_stored (setup : Setup) (turns : Nat) (session : Session ε)
    (world : ω) :
    (∀ block after later, (sync setup turns).Ends (Conduct.free besideLedger) session world
        (.value block) after later → after.ledger.lastBlock = some block) ∧
    ∀ position live begun early,
      (resume setup turns position).Ends (Conduct.free besideLedger) session world (.value live)
        begun early →
      ∀ count now, Turns (Conduct.free besideLedger) (liveStep setup turns) ⟨live, begun, early⟩
          count now →
        now.state.ledger.lastBlock = some now.place.last ∧
        ∀ delta base after later, (baseOf now.place.last delta).Ends (Conduct.free besideLedger)
            now.state now.world (.value (some base)) after later →
          after.ledger = now.state.ledger ∧ base.Suits now.state.ledger delta := by
  refine ⟨fun block after later ended => Keeps.ends tracks_sync ended, ?_⟩
  intro position live begun early started count now taken
  have starts : begun.ledger.lastBlock = some live.last :=
    Keeps.ends (tracks_resume position) started
  have stands : now.state.ledger.lastBlock = some now.place.last := by
    apply taken.preserves (fun now => now.state.ledger.lastBlock = some now.place.last) ?_ starts
    intro now next turn ends
    have tracked := Keeps.ends (tracks_liveStep ends) turn
    exact tracked next.place rfl
  refine ⟨stands, fun delta base after later ended => ?_⟩
  have suits := Keeps.ends (tracks_baseOf stands) ended
  exact ⟨suits.1, suits.2 base rfl⟩

end Session

/-! A live loop at the root of a fork. While it waits, others feed its follower: first with
a block of the one branch, and then with two of the other. -/

namespace Fork

def feeding : Surroundings (Session Entry) (List Follower) where
  answer
    | .idle, session, next =>
        (false, { session with follower := next.headD session.follower }, next.tail)
    | query, session, next =>
        (Surroundings.calm (fun _ _ => tree.reply 1 none "" root) fun next _ => next).answer query
          session next

theorem feeding_follows : feeding.Follows (Conduct.free Session.besideLedger) := by
  have calm : (Surroundings.calm (fun _ _ => tree.reply 1 none "" root) fun next _ => next).Follows
      (Conduct.free (Session.besideLedger (ε := Entry) (ω := List Follower))) :=
    Session.calm_follows_besideLedger _ _
  intro query session next answer after later answered
  cases query with
  | idle =>
      cases answered
      exact ⟨rfl, rfl⟩
  | _ => exact calm _ session next answer after later answered

def liveSetup : Setup :=
  { config := { maxBlockBacklog := 3 } }

def liveSession : Session Entry :=
  { Session.endingAt tree liveSetup.config root with follower := followerAt [] }

def fed : List Follower :=
  [followerAt [left 1], followerAt [right 2, left 1]]

/-- Where the live loop stands after some turns, given by what each of them led to. -/
def stands : List Live → Standing (Session Entry) (List Follower) Live
  | [] =>
      let started := (Session.resume liveSetup 5 0).run feeding liveSession fed
      ⟨⟨0, root⟩, started.2.1, started.2.2⟩
  | next :: earlier =>
      let now := stands earlier
      let turned := (Session.liveStep liveSetup 5 now.place).run feeding now.state now.world
      ⟨next, turned.2.1, turned.2.2⟩

/-- The first block is appended, and the next delta takes it back. -/
def path : List Live :=
  [⟨2, right 2⟩, ⟨1, left 1⟩, ⟨1, left 1⟩, ⟨0, root⟩]

end Fork

namespace Session

open Routine (Turn Turns)

theorem tracked_position_is_stored_at_fork :
    (resume Fork.liveSetup 5 0).Ends (Conduct.free besideLedger) Fork.liveSession Fork.fed
      (.value ⟨0, Fork.root⟩) (Fork.stands []).state (Fork.stands []).world ∧
    Turns (Conduct.free besideLedger) (liveStep Fork.liveSetup 5) (Fork.stands []) 4
      (Fork.stands Fork.path) ∧
    (Fork.stands Fork.path).state.ledger.lastBlock = some (Fork.right 2) := by
  have started : (resume Fork.liveSetup 5 0).Ends (Conduct.free besideLedger) Fork.liveSession
      Fork.fed (.value ⟨0, Fork.root⟩) (Fork.stands []).state (Fork.stands []).world :=
    Routine.ends_of_run Fork.feeding_follows (by decide +kernel)
  have turn : ∀ earlier next, ((liveStep Fork.liveSetup 5 (Fork.stands earlier).place).run
      Fork.feeding (Fork.stands earlier).state (Fork.stands earlier).world).1.value? =
        some (.inl next) →
      Turn (Conduct.free besideLedger) (liveStep Fork.liveSetup 5) (Fork.stands earlier)
        (Fork.stands (next :: earlier)) :=
    fun _ _ same => Routine.turn_of_run Fork.feeding_follows same
  have taken : Turns (Conduct.free besideLedger) (liveStep Fork.liveSetup 5) (Fork.stands []) 4
      (Fork.stands Fork.path) := by
    apply Turns.more (.more (.more (.more .none (turn _ _ ?_)) (turn _ _ ?_)) (turn _ _ ?_))
      (turn _ _ ?_)
    all_goals decide +kernel
  have tracked := tracked_position_is_stored Fork.liveSetup 5 Fork.liveSession Fork.fed
  exact ⟨started, taken, (tracked.2 0 _ _ _ started 4 _ taken).1⟩

end Session

end ReorgSync
