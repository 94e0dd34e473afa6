import Mathlib.Logic.Function.Basic
import ReorgSync.Proofs.Sync.Preflight

namespace ReorgSync

/-! Any number of sessions work on one entry. Each of them is called again and again, whatever
became of the calls before; calls of different sessions may overlap. Between two questions
a session works alone. -/

namespace Session

variable {ε : Type}

/-- A session without its entry. -/
def own (session : Session ε) : Session Unit :=
  { session with entry := () }

def withEntry (own : Session Unit) (entry : ε) : Session ε :=
  { own with entry }

@[simp] theorem entry_withEntry (own : Session Unit) (entry : ε) :
    (own.withEntry entry).entry = entry := rfl

end Session

/-- Sessions that share an entry, by numbers. Each of them has its own part of the state, and
its last call or what is left of it. -/
structure Team (ε ω : Type) where
  entry : ε
  members : Nat → Session Unit
  calls : Nat → Routine (Session ε) Unit
  world : ω

namespace Team

open Session (Obeys Shares WritesOn)

variable {ε ω : Type}

/-- New sessions that were not called yet. -/
def fresh (entry : ε) (followers : Nat → Follower) (world : ω) : Team ε ω where
  entry
  members member := { follower := followers member, entry := () }
  calls _ := .done ()
  world

def session (team : Team ε ω) (member : Nat) : Session ε :=
  (team.members member).withEntry team.entry

def situation (team : Team ε ω) (member : Nat) : Situation (Session ε) ω Unit :=
  ⟨team.calls member, team.session member, team.world⟩

/-- The call of a member has come to a situation. -/
def advance (team : Team ε ω) (member : Nat) (now : Situation (Session ε) ω Unit) :
    Team ε ω where
  entry := now.state.entry
  members := Function.update team.members member now.state.own
  calls := Function.update team.calls member now.rest
  world := now.world

@[simp] theorem members_advance_self (team : Team ε ω) (member : Nat)
    (now : Situation (Session ε) ω Unit) :
    (team.advance member now).members member = now.state.own :=
  Function.update_self _ _ _

@[simp] theorem members_advance_of_ne (team : Team ε ω) {member other : Nat}
    (apart : other ≠ member) (now : Situation (Session ε) ω Unit) :
    (team.advance member now).members other = team.members other :=
  Function.update_of_ne apart _ _

@[simp] theorem calls_advance_self (team : Team ε ω) (member : Nat)
    (now : Situation (Session ε) ω Unit) : (team.advance member now).calls member = now.rest :=
  Function.update_self _ _ _

@[simp] theorem calls_advance_of_ne (team : Team ε ω) {member other : Nat}
    (apart : other ≠ member) (now : Situation (Session ε) ω Unit) :
    (team.advance member now).calls other = team.calls other :=
  Function.update_of_ne apart _ _

theorem situation_advance_self (team : Team ε ω) (member : Nat)
    (now : Situation (Session ε) ω Unit) : (team.advance member now).situation member = now := by
  rw [situation, session, members_advance_self, calls_advance_self]
  rfl

theorem situation_advance_of_ne (team : Team ε ω) {member other : Nat} (apart : other ≠ member)
    (now : Situation (Session ε) ω Unit) : (team.advance member now).situation other =
      ⟨team.calls other, (team.members other).withEntry now.state.entry, now.world⟩ := by
  rw [situation, session, members_advance_of_ne team apart, calls_advance_of_ne team apart]
  rfl

theorem advance_advance (team : Team ε ω) (member : Nat)
    (now next : Situation (Session ε) ω Unit) :
    (team.advance member now).advance member next = team.advance member next := by
  rw [advance, advance, Function.update_idem, Function.update_idem, advance]

/-- All members but one wait. -/
def IsAlone (team : Team ε ω) (member : Nat) : Prop :=
  ∀ other, other ≠ member → (team.calls other).Waits

/-- What may happen to a session besides the work of the team: others use its follower. -/
def besideTeam (before after : Session ε) : Prop :=
  after = { before with follower := after.follower }

/-- One step of a team at a node of a chain. When a call begins, what is left of the last one
is given up, and others may have moved the follower. -/
inductive Step [EntryStore ε] (setups : Nat → Setup) (identity : ChainIdentity) :
    Team ε ω → Team ε ω → Prop
  | call {team : Team ε ω} {member : Nat} (alone : team.IsAlone member) (follower : Follower)
      (job : Session.Job) :
      Step setups identity team (team.advance member
        ⟨job.call (setups member), { team.session member with follower }, team.world⟩)
  | work {team : Team ε ω} {member : Nat} {now : Situation (Session ε) ω Unit}
      (alone : team.IsAlone member)
      (step : Situation.Step (identity.conduct besideTeam) (team.situation member) now) :
      Step setups identity team (team.advance member now)

/-- What a team can come to. -/
def Reaches [EntryStore ε] (setups : Nat → Setup) (identity : ChainIdentity) :
    Team ε ω → Team ε ω → Prop :=
  Relation.ReflTransGen (Step setups identity)

/-! ## What one step does -/

variable [EntryStore ε] [IdentityStore ε] {setups : Nat → Setup} {identity : ChainIdentity}
  {team next : Team ε ω} {entry : ε}

/-- What is true of a team at each moment. -/
structure IsTrueTo (team : Team ε ω) (identity : ChainIdentity) : Prop where
  sound : ∀ member, (team.session member).IsTrueTo identity
  obeys : ∀ member, Obeys identity (fun _ _ => True) (team.calls member) (team.session member)
    team.world

theorem isTrueTo_fresh (accepts : IdentityStore.Accepts entry identity)
    (followers : Nat → Follower) (world : ω) :
    (fresh entry followers world).IsTrueTo identity where
  sound _ := ⟨accepts, nofun⟩
  obeys _ := trivial

/-- What one step changes. -/
structure Changes (identity : ChainIdentity) (team next : Team ε ω) : Prop where
  entry : identity.Touches team.entry next.entry
  events : ∀ member, (next.members member).events = (team.members member).events ∨
    identity.Owns team.entry
  isIdentified : ∀ member, (next.members member).isIdentified = true →
    (team.members member).isIdentified = true ∨ identity.Owns team.entry

theorem changes_advance {member : Nat} {now : Situation (Session ε) ω Unit}
    (writes : WritesOn identity (team.session member) now.state) :
    Changes identity team (team.advance member now) where
  entry := writes.entry
  events other := by
    rcases eq_or_ne other member with rfl | apart
    · rw [members_advance_self]
      exact writes.events
    · rw [members_advance_of_ne team apart]
      exact .inl rfl
  isIdentified other := by
    rcases eq_or_ne other member with rfl | apart
    · rw [members_advance_self]
      exact writes.isIdentified
    · rw [members_advance_of_ne team apart]
      exact .inl

/-- While one member works, the others rely on what it writes. -/
theorem IsTrueTo.advance (trueTo : team.IsTrueTo identity) {member : Nat}
    (alone : team.IsAlone member) {now : Situation (Session ε) ω Unit}
    (writes : WritesOn identity (team.session member) now.state)
    (obeys : Obeys identity (fun _ _ => True) now.rest now.state now.world) :
    (team.advance member now).IsTrueTo identity := by
  have leads := writes.entry.leads (trueTo.sound member).accepts
  have each : ∀ other, ((team.advance member now).situation other).state.IsTrueTo identity ∧
      Obeys identity (fun _ _ => True) ((team.advance member now).situation other).rest
        ((team.advance member now).situation other).state now.world := by
    intro other
    rcases eq_or_ne other member with rfl | apart
    · rw [situation_advance_self]
      refine ⟨⟨leads.accepts (trueTo.sound other).accepts, fun isIdentified => ?_⟩, obeys⟩
      rcases writes.isIdentified isIdentified with wasIdentified | owns
      · exact leads.owns ((trueTo.sound other).owns wasIdentified)
      · exact leads.owns owns
    · rw [situation_advance_of_ne team apart]
      -- The others wait at a question; to them this was done before it is answered.
      have shares : Shares identity (team.session other)
          ((team.members other).withEntry now.state.entry) := ⟨leads, rfl, rfl⟩
      refine ⟨(trueTo.sound other).shares shares, ?_⟩
      exact Routine.Guarantees.wait (alone other apart) (trueTo.obeys other)
        fun _ _ _ _ accepted => ⟨shares.trans accepted.1, accepted.2⟩
  exact ⟨fun other => (each other).1, fun other => (each other).2⟩

/-- A step of a call, seen from its session. -/
theorem obeys_step {now next : Situation (Session ε) ω Unit}
    (obeys : Obeys identity (fun _ _ => True) now.rest now.state now.world)
    (step : Situation.Step (identity.conduct besideTeam) now next) :
    WritesOn identity now.state next.state ∧
      Obeys identity (fun _ _ => True) next.rest next.state next.world := by
  cases step with
  | read => exact ⟨Session.Moves.writesOn ⟨rfl, rfl, rfl⟩, obeys⟩
  | write => exact obeys
  | @ask query next before after world later answer accepted =>
      have moves : Session.Moves before after := by
        rw [show after = _ from accepted.1]
        exact ⟨rfl, rfl, rfl⟩
      exact ⟨moves.writesOn, obeys _ _ _ ⟨moves.shares, accepted.2⟩⟩

theorem IsTrueTo.step (trueTo : team.IsTrueTo identity) (step : Step setups identity team next) :
    Changes identity team next ∧ next.IsTrueTo identity := by
  cases step with
  | @call member alone follower job =>
      have moves : Session.Moves (team.session member) { team.session member with follower } :=
        ⟨rfl, rfl, rfl⟩
      refine ⟨changes_advance moves.writesOn, trueTo.advance alone moves.writesOn ?_⟩
      exact Session.obeys_job job ((trueTo.sound member).shares moves.shares)
  | @work member now alone step =>
      rcases obeys_step (trueTo.obeys member) step with ⟨writes, obeys⟩
      exact ⟨changes_advance writes, trueTo.advance alone writes obeys⟩

theorem IsTrueTo.reaches (trueTo : team.IsTrueTo identity)
    (reached : Reaches setups identity team next) : next.IsTrueTo identity := by
  induction reached with
  | refl => exact trueTo
  | tail _ step induction => exact (induction.step step).2

/-! ## What a team leaves behind -/

/-- Nothing was published, and no session has identified the chain. -/
structure IsSilent (team : Team ε ω) : Prop where
  events : ∀ member, (team.members member).events = .unbounded
  isIdentified : ∀ member, (team.members member).isIdentified = false

omit [EntryStore ε] [IdentityStore ε] in
theorem isSilent_fresh (entry : ε) (followers : Nat → Follower) (world : ω) :
    (fresh entry followers world).IsSilent where
  events _ := rfl
  isIdentified _ := rfl

/-- All that is done to an entry that does not belong to the chain is to record the chain. -/
theorem Changes.of_not_owns (changes : Changes identity team next) (silent : team.IsSilent)
    (foreign : ¬ identity.Owns team.entry) :
    next.IsSilent ∧ (next.entry = team.entry ∨
      EntryStore.identity team.entry = .ok none ∧
        EntryStore.record team.entry identity = .ok next.entry) := by
  refine ⟨⟨fun member => ?_, fun member => ?_⟩, ?_⟩
  · exact ((changes.events member).resolve_right foreign).trans (silent.events member)
  · by_contra isNow
    rw [Bool.not_eq_false] at isNow
    have was := (changes.isIdentified member isNow).resolve_right foreign
    exact Bool.false_ne_true ((silent.isIdentified member).symm.trans was)
  · cases changes.entry with
    | leaves same => exact .inl same
    | records isNew recorded => exact .inr ⟨isNew, recorded⟩
    | stores event owns stored => exact absurd owns foreign

/-- An entry stays as it was until it belongs to the chain, and nothing is published before. -/
theorem untouched_or_owns (accepts : IdentityStore.Accepts entry identity)
    {followers : Nat → Follower} {world : ω}
    (reached : Reaches setups identity (fresh entry followers world) team) :
    team.entry = entry ∧ team.IsSilent ∨ identity.Owns team.entry := by
  -- A step out of the first case can only record the chain, and no step leaves the second.
  induction reached with
  | refl => exact .inl ⟨rfl, isSilent_fresh entry followers world⟩
  | @tail now next before step induction =>
      have trueTo := (isTrueTo_fresh accepts followers world).reaches before
      have changes := (trueTo.step step).1
      have leads := changes.entry.leads (trueTo.sound 0).accepts
      rcases induction with ⟨rfl, silent⟩ | owns
      · by_cases owns : identity.Owns now.entry
        · exact .inr (leads.owns owns)
        · rcases changes.of_not_owns silent owns with ⟨silentThen, same | ⟨-, recorded⟩⟩
          · exact .inl ⟨same, silentThen⟩
          · exact .inr (ChainIdentity.owns_record accepts recorded)
      · exact .inr (leads.owns owns)

theorem IsTrueTo.leads (trueTo : team.IsTrueTo identity)
    (reached : Reaches setups identity team next) : identity.Leads team.entry next.entry := by
  induction reached with
  | refl => exact .inl rfl
  | tail before step induction =>
      have trueToNow := trueTo.reaches before
      exact induction.trans ((trueToNow.step step).1.entry.leads (trueToNow.sound 0).accepts)

theorem untouched_of_other (accepts : IdentityStore.Accepts entry identity)
    {followers : Nat → Follower} {world : ω} {recorded : ChainIdentity}
    (reads : EntryStore.identity entry = .ok (some recorded)) (differs : recorded ≠ identity)
    (reached : Reaches setups identity (fresh entry followers world) team) :
    team.entry = entry ∧ team.IsSilent := by
  have leads := (isTrueTo_fresh accepts followers world).leads reached
  have same : team.entry = entry := leads.eq_of_other reads differs
  rcases untouched_or_owns accepts reached with untouched | owns
  · exact untouched
  · rw [same] at owns
    cases reads.symm.trans owns.recorded
    exact absurd rfl differs

/-- Whatever the sessions of a team are called for, and whatever fails or is canceled or
displaced meanwhile: an entry of another chain is not written and nothing is published, and each
call whose preflight gets its answers says how the chains differ. In an entry where no chain
is recorded, the chain is recorded before anything is stored or published, at the latest when a
preflight gets its answers, and it is never replaced. -/
theorem never_written_on_another_chain (setups : Nat → Setup)
    (accepts : IdentityStore.Accepts entry identity) (followers : Nat → Follower) (world : ω)
    (reached : Reaches setups identity (fresh entry followers world) team) :
    (∀ recorded, EntryStore.identity entry = .ok (some recorded) → recorded ≠ identity →
      team.entry = entry ∧ team.IsSilent ∧
      ∀ (member : Nat) (job : Session.Job) (surroundings : Surroundings (Session ε) ω),
        (job.call (setups member)).FollowedBy surroundings
          (identity.servingConduct (Shares identity)) (team.session member) team.world →
        ((job.call (setups member)).run surroundings (team.session member) team.world).1 =
          .error (recorded.mismatch identity)) ∧
    (EntryStore.identity entry = .ok none →
      (team.entry = entry ∧ team.IsSilent ∨
        EntryStore.identity team.entry = .ok (some identity)) ∧
      (∀ next, EntryStore.identity team.entry = .ok none → Step setups identity team next →
        next.IsSilent ∧
          (next.entry = entry ∨ EntryStore.record entry identity = .ok next.entry)) ∧
      (∀ next, EntryStore.identity team.entry = .ok (some identity) →
        Reaches setups identity team next →
          EntryStore.identity next.entry = .ok (some identity)) ∧
      ∀ (member : Nat) (surroundings : Surroundings (Session ε) ω),
        (∃ recorded, EntryStore.record entry identity = .ok recorded) →
        Session.identifyOnce.FollowedBy surroundings
          (identity.servingConduct (Shares identity)) (team.session member) team.world →
        ∃ after later, Session.identifyOnce.run surroundings (team.session member) team.world =
          (.value (), after, later) ∧
            EntryStore.identity after.entry = .ok (some identity)) := by
  have trueTo := (isTrueTo_fresh accepts followers world).reaches reached
  have either := untouched_or_owns accepts reached
  constructor
  · intro recorded reads differs
    rcases untouched_of_other accepts reads differs reached with ⟨same, silent⟩
    refine ⟨same, silent, fun member job surroundings followed => ?_⟩
    have isOther : EntryStore.identity (team.session member).entry = .ok (some recorded) := by
      rw [session, Session.entry_withEntry, same, reads]
    have fails : Session.FailsWith identity (recorded.mismatch identity)
        (job.call (setups member)) (team.session member) team.world :=
      Session.failsWith_call job (silent.isIdentified member) isOther differs
    exact fails.run followed
  · intro isNew
    refine ⟨either.imp_right ChainIdentity.Owns.recorded, ?_, ?_, ?_⟩
    · intro next isStillNew step
      have foreign : ¬ identity.Owns team.entry := fun owns => by
        cases isStillNew.symm.trans owns.recorded
      rcases either with ⟨rfl, silent⟩ | owns
      · rcases (trueTo.step step).1.of_not_owns silent foreign with ⟨silent, same | records⟩
        · exact ⟨silent, .inl same⟩
        · exact ⟨silent, .inr records.2⟩
      · exact absurd owns foreign
    · intro next isRecorded later
      have owns : identity.Owns team.entry := ⟨(trueTo.sound 0).accepts, isRecorded⟩
      exact ((trueTo.leads later).owns owns).recorded
    · intro member surroundings records followed
      have canOwn : Session.CanOwn identity (team.session member) := by
        rcases either with ⟨rfl, -⟩ | owns
        · exact .inr ⟨isNew, records⟩
        · exact .inl owns
      rcases (Session.keeps_identifyOnce_served (trueTo.sound member) canOwn).run followed with
        ⟨succeeds, owns⟩
      exact ⟨_, _, Prod.ext succeeds rfl, owns.recorded⟩

/-! ## A call on its own -/

omit [IdentityStore ε] in
/-- A call that no one interferes with is one way for a team to go on. -/
theorem reaches_advance {member : Nat} {now next : Situation (Session ε) ω Unit}
    (alone : team.IsAlone member)
    (reached : Situation.Reaches (identity.conduct besideTeam) now next) :
    Reaches setups identity (team.advance member now) (team.advance member next) := by
  induction reached with
  | refl => exact .refl
  | @tail between next before step induction =>
      have stillAlone : (team.advance member between).IsAlone member := by
        intro other apart
        rw [calls_advance_of_ne team apart]
        exact alone other apart
      have work : Step setups identity (team.advance member between)
          ((team.advance member between).advance member next) := by
        apply Step.work stillAlone
        rw [situation_advance_self]
        exact step
      rw [advance_advance] at work
      exact induction.tail work

omit [IdentityStore ε] in
theorem reaches_run {member : Nat} (alone : team.IsAlone member) (job : Session.Job)
    {surroundings : Surroundings (Session ε) ω}
    (follows : surroundings.Follows (identity.conduct besideTeam)) :
    let ended := (job.call (setups member)).run surroundings (team.session member) team.world
    Reaches setups identity team (team.advance member ⟨ended.1.rest, ended.2.1, ended.2.2⟩) :=
  .head (.call alone (team.members member).follower job)
    (reaches_advance alone (Routine.ends_run follows _ _ _))

omit [EntryStore ε] [IdentityStore ε] in
/-- A node that always answers from one chain serves every preflight. -/
theorem scripted_follows {tree : BlockTree} {headAt : Nat → Block} {genesis : Block}
    (isGenesis : ∀ time, (tree.path (headAt time))[0]? = some genesis) :
    (Surroundings.scripted tree headAt).Follows
      ((⟨1, genesis.hash⟩ : ChainIdentity).servingConduct
        (besideTeam : Session ε → Session ε → Prop)) := by
  have truthful : ∀ time (call : Node.Call), ChainIdentity.Truthful ⟨1, genesis.hash⟩ call
      (tree.reply 1 none "" (headAt time) call) := by
    intro time call
    rcases call with _ | (_ | (_ | height)) | _ | ⟨_, _ | _⟩ | _
    case blockByTag.number.zero =>
      rw [BlockTree.reply, isGenesis]
      exact rfl
    case chainId => exact rfl
    all_goals trivial
  have served : ∀ time, ChainIdentity.Served (.cancelableNode (.blockByTag (.number 0)))
      (some (tree.reply 1 none "" (headAt time) (.blockByTag (.number 0)))) := by
    intro time
    rw [BlockTree.reply, isGenesis]
    exact ⟨genesis, rfl⟩
  intro query session time answer after later answered
  cases answered
  refine ⟨⟨rfl, ?_⟩, ?_⟩
  · cases query with
    | node call => exact truthful _ call
    | cancelableNode call => exact truthful _ call
    | _ => trivial
  · cases query with
    | cancelableNode call =>
        rcases call with _ | (_ | (_ | height)) | _ | ⟨_, _ | _⟩ | _
        case blockByTag.number.zero => exact served _
        case chainId => exact ⟨1, rfl⟩
        all_goals trivial
    | isCanceled => exact rfl
    | _ => trivial

/-- A session fails to synchronise an entry of another chain, and so does the next; an empty
entry is recorded and synchronised. -/
theorem never_written_on_another_chain_at_fork :
    let identity : ChainIdentity := ⟨1, Fork.root.hash⟩
    let setup : Setup := { config := { maxBlockBacklog := 2 } }
    let followers : Nat → Follower := fun _ => .make 2 500 none
    let other : Entry := {
      logs := [Fork.logOf Fork.root]
      lastBlock := some Fork.root
      identity := some ⟨2, Fork.root.hash⟩ }
    let node : Surroundings (Session Entry) Nat := .scripted Fork.tree fun _ => Fork.right 3
    (∃ team : Team Entry Nat,
      Reaches (fun _ => setup) identity (fresh other followers 0) team ∧
      team.calls 0 = .fail (.chainMismatch 2 1) ∧ team.entry = other ∧
      ((Session.Job.run 20).call setup |>.run node (team.session 1) team.world).1 =
        .error (.chainMismatch 2 1)) ∧
    ∃ team : Team Entry Nat,
      Reaches (fun _ => setup) identity (fresh {} followers 0) team ∧
      team.entry.lastBlock = some (Fork.right 3) ∧ team.entry.identity = some identity := by
  intro identity setup followers other node
  have serves : node.Follows (identity.servingConduct besideTeam) :=
    scripted_follows fun _ => by decide +kernel
  have follows : node.Follows (identity.conduct besideTeam) :=
    fun query session time answer after later answered =>
      (serves query session time answer after later answered).1
  have servesAll : node.Follows (identity.servingConduct (Shares identity)) := by
    intro query session time answer after later answered
    rcases serves query session time answer after later answered with ⟨⟨beside, answers⟩, served⟩
    have moves : Session.Moves session after := by
      rw [show after = _ from beside]
      exact ⟨rfl, rfl, rfl⟩
    exact ⟨⟨moves.shares, answers⟩, served⟩
  have differs : (⟨2, Fork.root.hash⟩ : ChainIdentity) ≠ identity := by decide
  have alone : ∀ entry : Entry, (fresh entry followers (0 : Nat)).IsAlone 0 :=
    fun _ _ _ => trivial
  constructor
  · have opened : Reaches (fun _ => setup) identity (fresh other followers (0 : Nat)) _ := .refl
    have first := ((never_written_on_another_chain (fun _ => setup) trivial followers 0 opened).1
      _ rfl differs).2.2 0 (.sync 20) node (Routine.followedBy_of_follows servesAll _ _ _)
    have synced : Reaches (fun _ => setup) identity (fresh other followers (0 : Nat)) _ :=
      reaches_run (alone other) (.sync 20) follows
    have second := (never_written_on_another_chain (fun _ => setup) trivial followers 0 synced).1
      _ rfl differs
    refine ⟨_, synced, ?_, second.1, ?_⟩
    · rw [calls_advance_self, first]
      exact rfl
    · exact second.2.2 1 (.run 20) node (Routine.followedBy_of_follows servesAll _ _ _)
  · have synced : Reaches (fun _ => setup) identity (fresh ({} : Entry) followers (0 : Nat)) _ :=
      reaches_run (alone {}) (.sync 20) follows
    have isSynced : ((((Session.Job.sync 20).call setup).run node
        ((fresh ({} : Entry) followers (0 : Nat)).session 0) 0).2.1.entry).lastBlock =
          some (Fork.right 3) := by
      decide +kernel
    refine ⟨_, synced, isSynced, ?_⟩
    rcases ((never_written_on_another_chain (fun _ => setup) trivial followers 0 synced).2
      rfl).1 with ⟨same, -⟩ | recorded
    · have isEmpty := congrArg Entry.lastBlock same
      cases isSynced.symm.trans isEmpty
    · exact Except.ok.inj recorded

end Team

end ReorgSync
