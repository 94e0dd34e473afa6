import ReorgSync.Proofs.Sync.Transcript

namespace ReorgSync

/-! What a routine does while others wait for it: it calls the node, and it pauses. A world
that keeps all of that tells what a run has cost, however it ended. -/

inductive Effort where
  | call (exchange : Exchange)
  | pause (time : Nat)
deriving DecidableEq

namespace Effort

/-- A block was asked for by its hash. -/
def isLookup : Effort → Bool
  | .call ⟨.blockByHash _ _, _⟩ => true
  | _ => false

def isPause : Effort → Bool
  | .pause _ => true
  | _ => false

/-- The node was asked for a block with a hash, and has none. -/
def notFound (hash : String) : Effort :=
  .call ⟨.blockByHash hash false, some (.ok none)⟩

/-- The node was asked for its latest block. -/
def latest (reply? : Option (Node.Call.Reply (.blockByTag .latest))) : Effort :=
  .call ⟨.blockByTag .latest, reply?⟩

/-- How often a block was asked for by its hash. -/
def lookups (efforts : List Effort) : Nat :=
  efforts.countP isLookup

def pauses (efforts : List Effort) : Nat :=
  efforts.countP isPause

variable {front back : List Effort}

theorem lookups_append : lookups (front ++ back) = lookups front + lookups back :=
  List.countP_append

theorem pauses_append : pauses (front ++ back) = pauses front + pauses back :=
  List.countP_append

theorem lookups_again (hash : String) (time : Nat) (behind : List Effort) :
    lookups (notFound hash :: pause time :: behind) = lookups behind + 1 := by
  rw [lookups, List.countP_cons_of_pos rfl, List.countP_cons_of_neg Bool.false_ne_true, lookups]

theorem pauses_again (hash : String) (time : Nat) (behind : List Effort) :
    pauses (notFound hash :: pause time :: behind) = pauses behind + 1 := by
  rw [pauses, List.countP_cons_of_neg Bool.false_ne_true, List.countP_cons_of_pos rfl, pauses]

end Effort

/-- It makes no difference here whether a question would be given up on cancellation. -/
def Query.efforts : (query : Query) → query.Answer → List Effort
  | .node call, reply => [.call ⟨call, some reply⟩]
  | .cancelableNode call, reply? => [.call ⟨call, reply?⟩]
  | .pause time, _ => [.pause time]
  | .wait time, _ => [.pause time]
  | _, _ => []

/-- The same surroundings, in a world that keeps the efforts. -/
def Surroundings.metering (surroundings : Surroundings σ ω) :
    Surroundings σ (ω × List Effort) where
  answer query state world :=
    let (answer, after, later) := surroundings.answer query state world.1
    (answer, after, later, world.2 ++ query.efforts answer)

def Conduct.metered (conduct : Conduct σ ω) : Conduct σ (ω × List Effort) :=
  fun query state world answer after later =>
    conduct query state world.1 answer after later.1 ∧ later.2 = world.2 ++ query.efforts answer

instance {conduct : Conduct σ ω} [conduct.GivesUp] : conduct.metered.GivesUp where
  node accepted := ⟨Conduct.GivesUp.node accepted.1, accepted.2⟩
  pause accepted := ⟨Conduct.GivesUp.pause accepted.1, accepted.2⟩

theorem Surroundings.metering_follows {surroundings : Surroundings σ ω} {conduct : Conduct σ ω}
    (follows : surroundings.Follows conduct) : surroundings.metering.Follows conduct.metered := by
  intro query state world answer after later answered
  cases answered
  exact ⟨follows query state world.1 _ _ _ rfl, rfl⟩

namespace Routine

variable {conduct : Conduct σ ω} {state : σ} {world : ω × List Effort} {isCancelable : Bool}

/-- How a run ends, and the efforts that it takes until then. -/
abbrev Spends (conduct : Conduct σ ω) (met : Outcome α → List Effort → Prop)
    (routine : Routine σ α) (state : σ) (world : ω × List Effort) : Prop :=
  routine.Keeps conduct.metered (fun _ _ => True)
    (fun outcome _ later => ∃ efforts, later.2 = world.2 ++ efforts ∧ met outcome efforts)
    state world

namespace Spends

variable {met : Outcome α → List Effort → Prop}

theorem mono {weaker : Outcome α → List Effort → Prop} {routine : Routine σ α}
    (spends : routine.Spends conduct met state world)
    (weaken : ∀ outcome efforts, met outcome efforts → weaker outcome efforts) :
    routine.Spends conduct weaker state world := by
  refine Keeps.mono spends fun outcome _ later holds => ?_
  rcases holds with ⟨efforts, heard, holds⟩
  exact ⟨efforts, heard, weaken outcome efforts holds⟩

theorem done {value : α} (holds : met (.value value) []) :
    (Routine.done value).Spends conduct met state world :=
  ⟨[], (List.append_nil _).symm, holds⟩

theorem fail {cause : SyncError} (holds : met (.error cause) []) :
    (Routine.fail cause : Routine σ α).Spends conduct met state world :=
  ⟨[], (List.append_nil _).symm, holds⟩

theorem get_andThen {part : σ → β} {second : β → Routine σ α}
    (continues : (second (part state)).Spends conduct met state world) :
    (Routine.get part >>= second).Spends conduct met state world :=
  continues

theorem modify_andThen {change : σ → σ} {second : Unit → Routine σ α}
    (continues : (second ()).Spends conduct met (change state) world) :
    (Routine.modify change >>= second).Spends conduct met state world :=
  ⟨trivial, continues⟩

/-- One routine after another takes the efforts of both. -/
theorem sequence {first : Routine σ α} {second : α → Routine σ β}
    {metThen : Outcome β → List Effort → Prop} (spends : first.Spends conduct met state world)
    (continues : ∀ value efforts after later, met (.value value) efforts →
      (second value).Spends conduct (fun outcome more => metThen outcome (efforts ++ more)) after
        later)
    (fails : ∀ cause efforts, met (.error cause) efforts → metThen (.error cause) efforts)
    (halts : ∀ cause efforts, met (.halted cause) efforts → metThen (.halted cause) efforts) :
    (first >>= second).Spends conduct metThen state world := by
  apply Keeps.sequence spends
  · intro value after later holds
    rcases holds with ⟨efforts, heard, holds⟩
    refine Keeps.mono (continues value efforts after later holds) fun outcome _ final holds => ?_
    rcases holds with ⟨more, heardThen, holdsThen⟩
    exact ⟨efforts ++ more, by rw [heardThen, heard, List.append_assoc], holdsThen⟩
  · intro cause after later holds
    rcases holds with ⟨efforts, heard, holds⟩
    exact ⟨efforts, heard, fails cause efforts holds⟩
  · intro cause after later holds
    rcases holds with ⟨efforts, heard, holds⟩
    exact ⟨efforts, heard, halts cause efforts holds⟩

/-- The efforts of a run in a world that keeps them. -/
theorem run {surroundings : Surroundings σ ω} {routine : Routine σ α} {early : ω}
    (spends : routine.Spends surroundings.conduct met state (early, [])) :
    met (routine.run surroundings.metering state (early, [])).1
      (routine.run surroundings.metering state (early, [])).2.2.2 := by
  have follows : surroundings.metering.Follows surroundings.conduct.metered :=
    Surroundings.metering_follows fun _ _ _ _ _ _ answered => answered
  have ended := Keeps.run spends (followedBy_of_follows follows routine state (early, []))
  rcases ended with ⟨efforts, heard, holds⟩
  rw [heard, List.nil_append]
  exact holds

end Spends

/-! ## Questions -/

/-- A call was answered with a value, or it is over: the node failed, or the call was
given up. -/
inductive Calls (call : Node.Call) : Outcome call.Value → List Effort → Prop
  | answered (value : call.Value) : Calls call (.value value) [.call ⟨call, some (.ok value)⟩]
  | failed (error : NodeError) :
      Calls call (.error (.node error)) [.call ⟨call, some (.error error)⟩]
  | givenUp : Calls call (.error .canceled) [.call ⟨call, none⟩]

theorem spends_node (call : Node.Call) :
    ((Routine.node call).interruptible isCancelable).Spends conduct (Calls call) state world := by
  cases isCancelable with
  | true =>
      rw [Routine.interruptible, if_pos rfl, Routine.node, Routine.cancelable]
      intro reply? after later accepted
      rcases reply? with _ | error | value
      · exact ⟨_, accepted.2, .givenUp⟩
      · exact ⟨_, accepted.2, .failed error⟩
      · exact ⟨_, accepted.2, .answered value⟩
  | false =>
      intro reply after later accepted
      rcases reply with error | value
      · exact ⟨_, accepted.2, .failed error⟩
      · exact ⟨_, accepted.2, .answered value⟩

theorem spends_pause (time : Nat) :
    ((Routine.pause time).interruptible isCancelable).Spends conduct (fun outcome efforts =>
      (outcome = .value () ∨ outcome = .error .canceled) ∧ efforts = [.pause time]) state
        world := by
  cases isCancelable with
  | true =>
      rw [Routine.interruptible, if_pos rfl, Routine.pause, Routine.query, Routine.cancelable]
      intro canceled after later accepted
      cases canceled with
      | true => exact ⟨_, accepted.2, .inr rfl, rfl⟩
      | false => exact ⟨_, accepted.2, .inl rfl, rfl⟩
  | false => exact fun _ after later accepted => ⟨_, accepted.2, .inl rfl, rfl⟩

end Routine

end ReorgSync
