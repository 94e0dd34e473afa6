import ReorgSync.Proofs.Still

namespace ReorgSync

/-! A node that may also fail while its chain stands still, in surroundings that may
also cancel. Whether they do is a parameter: where nothing fails, what a routine tries
it attains, and where something may fail, it attains that or keeps what held before. -/

namespace StillChain

/-- The answers of calm surroundings and, if something may fail, errors and
cancellation. -/
def Allows (chain : StillChain) (mayFail : Prop) : (query : Query) → query.Answer → Prop
  | .node call, reply => reply = chain.reply call ∨ mayFail ∧ ∃ error, reply = .error error
  | .cancelableNode call, some reply =>
      reply = chain.reply call ∨ mayFail ∧ ∃ error, reply = .error error
  | .cancelableNode _, none => mayFail
  | .isCanceled, canceled => canceled = true → mayFail
  | .wait _, canceled => canceled = true → mayFail
  | .acquireCancelable, canceled => canceled = true → mayFail
  | _, _ => True

def conduct (chain : StillChain) (mayFail : Prop) : Conduct σ Unit :=
  fun query state _ answer after _ => after = state ∧ chain.Allows mayFail query answer

theorem surroundings_follows (chain : StillChain) (mayFail : Prop) :
    (chain.surroundings : Surroundings σ Unit).Follows (chain.conduct mayFail) := by
  intro query state world answer after later answered
  rcases Prod.mk.inj answered with ⟨rfl, rest⟩
  rcases Prod.mk.inj rest with ⟨rfl, rfl⟩
  refine ⟨rfl, ?_⟩
  cases query with
  | node call => exact .inl rfl
  | cancelableNode call => exact .inl rfl
  | isCanceled => exact fun canceled => nomatch canceled
  | wait time => exact fun canceled => nomatch canceled
  | acquireCancelable => exact fun canceled => nomatch canceled
  | _ => trivial

end StillChain

namespace Routine

/-- A routine that keeps an invariant, and that ends with a value as stated unless
something may fail. -/
def Tries (chain : StillChain) (mayFail : Prop) (invariant : σ → Prop) (met : α → σ → Prop)
    (routine : Routine σ α) (state : σ) : Prop :=
  routine.Keeps (chain.conduct mayFail) (fun after _ => invariant after)
    (Outcome.Meets (fun value after _ => invariant after ∧ met value after)
      (fun after _ => mayFail ∧ invariant after)) state ()

/-- A routine that changes nothing, and what it finds. -/
abbrev Seeks (chain : StillChain) (mayFail : Prop) (found : α → Prop) (routine : Routine σ α)
    (state : σ) : Prop :=
  routine.Tries chain mayFail (· = state) (fun value _ => found value) state

namespace Tries

variable {chain : StillChain} {mayFail : Prop} {invariant : σ → Prop} {met : α → σ → Prop}
  {state : σ}

theorem done {value : α} (holds : invariant state) (isMet : met value state) :
    (Routine.done value).Tries chain mayFail invariant met state :=
  ⟨holds, isMet⟩

theorem fail {error : SyncError} (holds : invariant state) (fails : mayFail) :
    (Routine.fail error : Routine σ α).Tries chain mayFail invariant met state :=
  ⟨fails, holds⟩

theorem halted {cause : Halt} (holds : invariant state) (fails : mayFail) :
    (Routine.halted cause : Routine σ α).Tries chain mayFail invariant met state :=
  ⟨fails, holds⟩

theorem mono {weaker : α → σ → Prop} {routine : Routine σ α}
    (tries : routine.Tries chain mayFail invariant met state)
    (weaken : ∀ value after, invariant after → met value after → weaker value after) :
    routine.Tries chain mayFail invariant weaker state :=
  Keeps.weaken tries (fun value after _ holds => ⟨holds.1, weaken value after holds.1 holds.2⟩)
    fun _ _ holds => holds

theorem mono_invariant {weaker : σ → Prop} {routine : Routine σ α}
    (tries : routine.Tries chain mayFail invariant met state)
    (weaken : ∀ after, invariant after → weaker after) :
    routine.Tries chain mayFail weaker met state :=
  (Keeps.mono_invariant tries fun after _ => weaken after).weaken
    (fun _ after _ holds => ⟨weaken after holds.1, holds.2⟩)
    fun after _ holds => ⟨holds.1, weaken after holds.2⟩

theorem andThen {first : Routine σ α} {second : α → Routine σ β} {metThen : β → σ → Prop}
    (tries : first.Tries chain mayFail invariant met state)
    (continues : ∀ value after, invariant after → met value after →
      (second value).Tries chain mayFail invariant metThen after) :
    (first >>= second).Tries chain mayFail invariant metThen state :=
  Keeps.andThen tries fun value after _ holds => continues value after holds.1 holds.2

/-- What follows a routine that changes nothing goes on in the same state. -/
theorem after_seeks {first : Routine σ α} {second : α → Routine σ β} {found : α → Prop}
    {metThen : β → σ → Prop} (holds : invariant state)
    (seeks : first.Seeks chain mayFail found state)
    (continues : ∀ value, found value →
      (second value).Tries chain mayFail invariant metThen state) :
    (first >>= second).Tries chain mayFail invariant metThen state := by
  have kept : ∀ after, after = state → invariant after := by
    intro _ same
    rw [same]
    exact holds
  refine Keeps.andThen (Keeps.weaken (Keeps.mono_invariant seeks fun after _ => kept after)
    (fun _ _ _ ended => ended) fun after _ ended => ⟨ended.1, kept after ended.2⟩) ?_
  intro value after _ ended
  rcases ended with ⟨rfl, isFound⟩
  exact continues value isFound

theorem after_finds {first : Routine σ α} {second : α → Routine σ β} {value : α}
    {metThen : β → σ → Prop} (holds : invariant state)
    (finds : first.Seeks chain mayFail (· = value) state)
    (continues : (second value).Tries chain mayFail invariant metThen state) :
    (first >>= second).Tries chain mayFail invariant metThen state := by
  apply after_seeks holds finds
  intro _ same
  rw [same]
  exact continues

theorem get_andThen {part : σ → α} {second : α → Routine σ β} {metThen : β → σ → Prop}
    (continues : (second (part state)).Tries chain mayFail invariant metThen state) :
    (Routine.get part >>= second).Tries chain mayFail invariant metThen state :=
  continues

theorem modify {change : σ → σ} {met : Unit → σ → Prop} (holds : invariant (change state))
    (isMet : met () (change state)) :
    (Routine.modify change).Tries chain mayFail invariant met state :=
  ⟨holds, holds, isMet⟩

theorem modify_andThen {change : σ → σ} {second : Unit → Routine σ β} {metThen : β → σ → Prop}
    (holds : invariant (change state))
    (continues : (second ()).Tries chain mayFail invariant metThen (change state)) :
    (Routine.modify change >>= second).Tries chain mayFail invariant metThen state :=
  ⟨holds, continues⟩

theorem ofExcept {outcome : Except SyncError α} (holds : invariant state)
    (succeeds : ∀ value, outcome = .ok value → met value state)
    (fails : ∀ error, outcome = .error error → mayFail) :
    (Routine.ofExcept outcome).Tries chain mayFail invariant met state := by
  cases outcome with
  | ok value => exact done holds (succeeds value rfl)
  | error error => exact fail holds (fails error rfl)

theorem attempt {routine : Routine σ α}
    (tries : routine.Tries chain mayFail invariant met state) :
    routine.attempt.Tries chain mayFail invariant (fun
      | .ok value => met value
      | .error _ => fun _ => mayFail) state := by
  refine (Keeps.attempt tries).weaken (fun outcome after _ holds => ?_) fun _ _ holds => holds
  cases outcome with
  | ok value => exact holds
  | error error => exact ⟨holds.2, holds.1⟩

/-- A loop ends if each turn that goes on brings down a variant, and there are more
turns than that. -/
theorem iterate {step : β → Routine σ (β ⊕ α)} (during : β → σ → Prop) (variant : β → Nat)
    (turn : ∀ place state, invariant state → during place state →
      (step place).Tries chain mayFail invariant (fun
        | .inl next => fun after => during next after ∧ variant next < variant place
        | .inr value => met value) state)
    {turns : Nat} {place : β} (enough : mayFail ∨ variant place < turns)
    (holds : invariant state) (starts : during place state) :
    (Routine.iterate step turns place).Tries chain mayFail invariant met state := by
  induction turns generalizing place state with
  | zero => exact ⟨enough.resolve_right (Nat.not_lt_zero _), holds⟩
  | succ turns induction =>
      apply andThen (turn place state holds starts)
      intro result after holdsThen isMet
      cases result with
      | inl next =>
          have less := isMet.2
          exact induction (enough.imp_right fun below => by omega) holdsThen isMet.1
      | inr value => exact done holdsThen isMet

/-- Where nothing fails, a routine ends with a value. -/
theorem exists_run {surroundings : Surroundings σ Unit} {routine : Routine σ α}
    (tries : routine.Tries chain False invariant met state)
    (follows : surroundings.Follows (chain.conduct False)) :
    ∃ value after, routine.run surroundings state () = (.value value, after, ()) ∧
      invariant after ∧ met value after := by
  have ended := Keeps.ends tries (ends_run follows routine state ())
  generalize routine.run surroundings state () = result at ended ⊢
  rcases result with ⟨outcome, after, ⟨⟩⟩
  cases outcome with
  | value value => exact ⟨value, after, rfl, ended⟩
  | error error => exact ended.1.elim
  | halted cause => exact ended.1.elim

/-! ### Questions -/

theorem ask {query : Query} {next : query.Answer → Routine σ α}
    (continues : ∀ answer, chain.Allows mayFail query answer →
      (next answer).Tries chain mayFail invariant met state) :
    (Routine.ask query next).Tries chain mayFail invariant met state := by
  intro answer after _ accepted
  rcases accepted with ⟨rfl, allowed⟩
  exact continues answer allowed

theorem checkCanceled : Routine.checkCanceled.Seeks chain mayFail (fun _ => True) state := by
  apply ask
  intro canceled allowed
  cases canceled with
  | true => exact fail rfl (allowed rfl)
  | false => exact done rfl trivial

theorem sleep {time : Nat} : (Routine.sleep time).Seeks chain mayFail (fun _ => True) state := by
  apply ask
  intro canceled allowed
  cases canceled with
  | true => exact fail rfl (allowed rfl)
  | false => exact done rfl trivial

/-- To give up is to fail. A routine is given up at a question, where the invariant still
holds since its last write. -/
theorem cancelable {routine : Routine σ α} (holds : invariant state)
    (tries : routine.Tries chain mayFail invariant met state) :
    routine.cancelable.Tries chain mayFail invariant met state := by
  induction routine generalizing state with
  | done value => exact tries
  | fail error => exact tries
  | halted cause => exact tries
  | read next induction => exact induction state holds tries
  | write changed next induction => exact ⟨tries.1, induction tries.1 tries.2⟩
  | ask query next induction =>
      have continues : ∀ answer, chain.Allows mayFail query answer →
          (next answer).cancelable.Tries chain mayFail invariant met state :=
        fun answer allowed => induction answer holds (tries answer state () ⟨rfl, allowed⟩)
      cases query with
      | node call =>
          rw [Routine.cancelable]
          apply ask
          intro reply allowed
          cases reply with
          | none => exact fail holds allowed
          | some reply => exact continues reply allowed
      | pause time =>
          rw [Routine.cancelable]
          apply ask
          intro canceled allowed
          cases canceled with
          | true => exact fail holds (allowed rfl)
          | false => exact continues () trivial
      | _ =>
          simp only [Routine.cancelable]
          exact ask continues

theorem guarded {routine : Routine σ α} (holds : invariant state)
    (tries : routine.Tries chain mayFail invariant met state) :
    routine.guarded.Tries chain mayFail invariant met state :=
  after_seeks holds checkCanceled fun _ _ => cancelable holds tries

theorem releasing {routine : Routine σ α}
    (tries : routine.Tries chain mayFail invariant met state) :
    routine.releasing.Tries chain mayFail invariant met state := by
  apply andThen (attempt tries)
  intro outcome after holds isMet
  apply ask
  intro _ _
  cases outcome with
  | ok value => exact done holds isMet
  | error error => exact fail holds isMet

theorem exclusively {routine : Routine σ α}
    (tries : routine.Tries chain mayFail invariant met state) :
    routine.exclusively.Tries chain mayFail invariant met state :=
  ask fun _ _ => releasing tries

theorem guardedExclusively {routine : Routine σ α} (holds : invariant state)
    (tries : routine.Tries chain mayFail invariant met state) :
    routine.guardedExclusively.Tries chain mayFail invariant met state := by
  apply after_seeks holds checkCanceled
  intro _ _
  apply ask
  intro canceled allowed
  cases canceled with
  | true => exact fail holds (allowed rfl)
  | false => exact releasing (cancelable holds tries)

/-- Work on the follower of a session. -/
theorem withFollower {routine : Routine Follower α} {session : Session ε}
    {invariant : Session ε → Prop} {met : α → Session ε → Prop}
    (tries : routine.Tries chain mayFail (fun follower => invariant { session with follower })
      (fun value follower => met value { session with follower }) session.follower) :
    (Session.withFollower routine).Tries chain mayFail invariant met session := by
  induction routine generalizing session with
  | done value => exact tries
  | fail error => exact tries
  | halted cause => exact tries
  | read next induction => exact induction session.follower tries
  | write changed next induction =>
      exact ⟨tries.1, @induction { session with follower := changed } tries.2⟩
  | ask query next induction =>
      apply ask
      intro answer allowed
      exact induction answer (tries answer session.follower () ⟨rfl, allowed⟩)

end Tries

namespace Seeks

variable {chain : StillChain} {mayFail : Prop} {found : α → Prop} {state : σ}

theorem done {value : α} (isFound : found value) :
    (Routine.done value).Seeks chain mayFail found state :=
  Tries.done rfl isFound

theorem fail {error : SyncError} (fails : mayFail) :
    (Routine.fail error : Routine σ α).Seeks chain mayFail found state :=
  Tries.fail rfl fails

theorem andThen {first : Routine σ α} {second : α → Routine σ β} {foundThen : β → Prop}
    (seeks : first.Seeks chain mayFail found state)
    (continues : ∀ value, found value →
      (second value).Seeks chain mayFail foundThen state) :
    (first >>= second).Seeks chain mayFail foundThen state :=
  Tries.after_seeks rfl seeks continues

theorem andThen_finds {first : Routine σ α} {second : α → Routine σ β} {value : α}
    {foundThen : β → Prop} (finds : first.Seeks chain mayFail (· = value) state)
    (continues : (second value).Seeks chain mayFail foundThen state) :
    (first >>= second).Seeks chain mayFail foundThen state :=
  Tries.after_finds rfl finds continues

theorem iterate {step : β → Routine σ (β ⊕ α)} (during : β → Prop) (variant : β → Nat)
    (turn : ∀ place, during place → (step place).Seeks chain mayFail (fun
      | .inl next => during next ∧ variant next < variant place
      | .inr value => found value) state)
    {turns : Nat} {place : β} (enough : mayFail ∨ variant place < turns) (starts : during place) :
    (Routine.iterate step turns place).Seeks chain mayFail found state := by
  refine Tries.iterate (fun place _ => during place) variant ?_ enough rfl starts
  intro place _ same holds
  rw [same]
  refine (turn place holds).mono fun result _ _ isFound => ?_
  cases result with
  | inl next => exact isFound
  | inr value => exact isFound

/-- A call ends with what the chain replies. -/
theorem node {call : Node.Call} {value : call.Value} (replies : chain.reply call = .ok value) :
    (Routine.node call).Seeks chain mayFail (· = value) state := by
  apply Tries.ask
  intro reply allowed
  rw [StillChain.Allows, replies] at allowed
  cases reply with
  | ok other =>
      rcases allowed with same | ⟨-, error, isError⟩
      · exact done (Except.ok.inj same)
      · nomatch isError
  | error error =>
      rcases allowed with same | ⟨fails, -⟩
      · nomatch same
      · exact fail fails

end Seeks

end Routine

end ReorgSync
