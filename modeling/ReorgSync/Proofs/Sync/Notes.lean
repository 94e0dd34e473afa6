import ReorgSync.Proofs.Sync.ByHash

namespace ReorgSync

/-! A world may take notes of what a node says about the canonical chain. No session can read
them. They tell afterwards which chain it was that gave an answer. -/

/-- What a node has said about the canonical chain, and the head of that chain. -/
inductive Note where
  /-- The logs of all heights from the first to the second. -/
  | range (first final : Nat) (head : Block)
  /-- The block at a height, or that there is none. -/
  | block (height : Nat) (found : Option Block) (head : Block)
deriving DecidableEq

def Node.Call.notes (head : Block) : (call : Node.Call) → call.Reply → List Note
  | .logs ⟨_, .range first final⟩, .ok _ => [.range first final head]
  | .blockByTag (.number level), .ok found => [.block level found head]
  | _, _ => []

def Query.notes (head : Block) : (query : Query) → query.Answer → List Note
  | .node call, reply => call.notes head reply
  | .cancelableNode call, some reply => call.notes head reply
  | _, _ => []

@[simp] theorem Node.Call.notes_error (head : Block) (call : Node.Call) (error : NodeError) :
    call.notes head (.error error) = [] := by
  rcases call with _ | ⟨_ | _⟩ | _ | ⟨_, _ | _⟩ | _ <;> rfl

/-- What is noted until a range is stored: its logs are given, and the block that ends it. -/
def Note.ofRange (first final : Nat) (ranged block named : Block) : List Note :=
  [.range first final ranged, .block final (some block) named]

namespace Movement

variable {movement : Movement ω} {tree : BlockTree} {notes : ω → List Note}

/-- The world takes notes of what an honest node says while the head moves. -/
def noting (movement : Movement ω) (tree : BlockTree) (notes : ω → List Note) :
    Conduct (Session Entry) ω :=
  fun query session world answer after later =>
    movement.conduct tree query session world answer after later ∧
      notes later = notes world ++ query.notes (movement.headOf later) answer

instance : (movement.noting tree notes).Within (movement.besideStore tree) where
  asked accepted := (movement.conduct tree).asked accepted.1

instance {filter : Filter} : (movement.noting tree notes).Within (movement.soundly tree filter) where
  asked accepted := soundly_of_besideStore ((movement.conduct tree).asked accepted.1)

instance : (movement.noting tree notes).GivesUp where
  node accepted := ⟨Conduct.GivesUp.node accepted.1, accepted.2⟩
  pause accepted := ⟨Conduct.GivesUp.pause accepted.1, accepted.2⟩

/-- The same movement in a world that has more to it. -/
def within (movement : Movement ω) (part : τ → ω) : Movement τ where
  headOf world := movement.headOf (part world)
  moves early late := movement.moves (part early) (part late)
  refl world := movement.refl (part world)
  trans := movement.trans

end Movement

/-- The head may move anywhere between two answers, and the world takes notes of what
an honest node says. -/
def BlockTree.noting (tree : BlockTree) (headOf : ω → Block) (notes : ω → List Note) :
    Conduct (Session Entry) ω :=
  (Movement.anywhere headOf).noting tree notes

/-- The same surroundings, in a world that keeps notes. -/
def Surroundings.noting (surroundings : Surroundings (Session Entry) ω) (headOf : ω → Block) :
    Surroundings (Session Entry) (ω × List Note) where
  answer query session world :=
    let (answer, after, later) := surroundings.answer query session world.1
    (answer, after, later, world.2 ++ query.notes (headOf later) answer)

theorem Surroundings.noting_follows {surroundings : Surroundings (Session Entry) ω}
    {tree : BlockTree} {movement : Movement ω}
    (follows : surroundings.Follows (movement.conduct tree)) :
    (surroundings.noting movement.headOf).Follows
      ((movement.within Prod.fst).noting tree Prod.snd) := by
  intro query session world answer after later answered
  cases answered
  exact ⟨follows query session world.1 _ _ _ rfl, rfl⟩

namespace Session

open Routine (Keeps Quietly)

variable {tree : BlockTree} {headOf : ω → Block} {notes : ω → List Note}
  {session after : Session Entry} {world later : ω} {stopped : List Note → Prop}

/-- Work that is followed together with the notes, what it ends with, and what is noted
where it ends without a value. -/
abbrev Records (tree : BlockTree) (headOf : ω → Block) (notes : ω → List Note)
    (met : α → Session Entry → ω → Prop) (stopped : List Note → Prop)
    (routine : Routine (Session Entry) α) (session : Session Entry) (world : ω) : Prop :=
  routine.Keeps (tree.noting headOf notes) (fun _ _ => True)
    (Outcome.Meets met fun _ later => stopped (notes later)) session world

theorem entry_of_noting {query : Query} {answer : query.Answer}
    (accepted : tree.noting headOf notes query session world answer after later) :
    after.entry = session.entry := by
  rw [accepted.1.1.1]

theorem records_enter (phase : Phase) :
    Records tree headOf notes (fun _ after later =>
      after.entry = session.entry ∧ notes later = notes world) stopped (enter phase) session
        world :=
  ⟨trivial, rfl, rfl⟩

theorem records_checkCanceled (isStopped : stopped (notes world)) :
    Records tree headOf notes (fun _ after later =>
      after.entry = session.entry ∧ notes later = notes world) stopped .checkCanceled session
        world := by
  intro canceled after later accepted
  have same : notes later = notes world := by
    rw [accepted.2]
    exact List.append_nil _
  cases canceled with
  | true =>
      show stopped (notes later)
      rw [same]
      exact isStopped
  | false => exact ⟨entry_of_noting accepted, same⟩

/-- A question to the node that may be given up, and what is noted of its answer. -/
theorem records_reply {call : Node.Call} (isStopped : stopped (notes world)) :
    Records tree headOf notes (fun reply after later => after.entry = session.entry ∧
      tree.Contains (headOf later) ∧ tree.Answers (headOf later) (.cancelableNode call) reply ∧
        notes later = notes world ++ Query.notes (headOf later) (.cancelableNode call) reply)
      stopped (Routine.ask (.cancelableNode call) .done).guarded session world := by
  apply (records_checkCanceled isStopped).andThen
  intro _ now late unnoted reply after later accepted
  rcases unnoted with ⟨sameEntry, same⟩
  have noted := accepted.2
  rw [same] at noted
  cases reply with
  | none => exact ⟨(entry_of_noting accepted).trans sameEntry, accepted.1.2.1, trivial, noted⟩
  | some reply =>
      exact ⟨(entry_of_noting accepted).trans sameEntry, accepted.1.2.1, accepted.1.2.2, noted⟩

theorem records_call {call : Node.Call} (isStopped : stopped (notes world)) :
    Records tree headOf notes (fun value after later => after.entry = session.entry ∧
      tree.Contains (headOf later) ∧ tree.Truthful (headOf later) call (.ok value) ∧
        notes later = notes world ++ call.notes (headOf later) (.ok value))
      stopped (Session.call call) session world := by
  apply (records_checkCanceled isStopped).andThen
  intro _ now late unnoted
  rcases unnoted with ⟨sameEntry, same⟩
  rw [Routine.node, Routine.cancelable]
  intro reply after later accepted
  have noted := accepted.2
  rw [same] at noted
  rcases reply with _ | error | value
  · show stopped (notes later)
    rw [noted]
    exact (List.append_nil _).symm ▸ isStopped
  · show stopped (notes later)
    rw [noted, Query.notes, Node.Call.notes_error, List.append_nil]
    exact isStopped
  · exact ⟨(entry_of_noting accepted).trans sameEntry, accepted.1.2.1, accepted.1.2.2, noted⟩

/-- The same where nothing matters but an answer. -/
theorem records_answer (call : Node.Call) :
    Records tree headOf notes (fun value _ later =>
      tree.Truthful (headOf later) call (.ok value) ∧
        notes later = notes world ++ call.notes (headOf later) (.ok value))
      (fun _ => True) (Session.call call) session world := by
  have records : Records tree headOf notes _ (fun _ => True) (Session.call call) session world :=
    records_call trivial
  exact records.weaken (fun _ _ _ answered => answered.2.2) fun _ _ _ => trivial

theorem records_blockAt (height : Nat) :
    Records tree headOf notes (fun block _ later =>
      (tree.path (headOf later))[height]? = some block ∧
        notes later = notes world ++ [.block height (some block) (headOf later)])
      (fun _ => True) (blockAt height) session world := by
  apply (records_answer (.blockByTag (.number height))).andThen
  intro found after later answered
  rcases answered with ⟨truthful, noted⟩
  cases found with
  | none => exact trivial
  | some block => exact ⟨truthful block rfl, noted⟩

/-! ## What is not noted -/

/-- Work on the chain that nothing is noted of. -/
abbrev Unnoted (tree : BlockTree) (headOf : ω → Block) (notes : ω → List Note)
    (routine : Routine (Session Entry) α) (session : Session Entry) (world : ω) : Prop :=
  Records tree headOf notes (fun _ _ later => notes later = notes world) (fun _ => True) routine
    session world

theorem unnoted_andThen {first : Routine (Session Entry) α}
    {second : α → Routine (Session Entry) β} (unnoted : Unnoted tree headOf notes first session
      world)
    (continues : ∀ value after later, Unnoted tree headOf notes (second value) after later) :
    Unnoted tree headOf notes (first >>= second) session world := by
  apply unnoted.andThen
  intro value after later same
  rw [← same]
  exact continues value after later

theorem unnoted_call {call : Node.Call}
    (other : ∀ head value, call.notes head (.ok value) = []) :
    Unnoted tree headOf notes (Session.call call) session world := by
  refine (records_answer call).weaken (fun value after later answered => ?_) fun _ _ _ => trivial
  rw [answered.2, other, List.append_nil]

theorem unnoted_commonAncestor (last : Block) (backlog steps : Nat) (stored canonical : Block) :
    Unnoted tree headOf notes (commonAncestor last backlog steps stored canonical) session
      world := by
  have ancestor : ∀ (hash : String) (session : Session Entry) (world : ω),
      Unnoted tree headOf notes (blockWithHash hash) session world := by
    intro hash session world
    apply unnoted_andThen (unnoted_call fun _ _ => rfl)
    intro found after later
    cases found with
    | none => exact trivial
    | some block => exact rfl
  induction steps generalizing stored canonical session world with
  | zero =>
      rw [commonAncestor]
      split
      · exact rfl
      · exact trivial
  | succ steps induction =>
      rw [commonAncestor]
      split
      · exact rfl
      · split
        · exact trivial
        · apply unnoted_andThen (ancestor _ _ _)
          intro stored after later
          apply unnoted_andThen (ancestor _ _ _)
          intro canonical after later
          exact induction stored canonical

/-! ## Quiet work -/

variable {movement : Movement ω} {barred : ω → Prop}

/-- Quiet work in a world that keeps notes, while something is barred. -/
theorem quietly_barring {routine : Routine (Session Entry) α}
    {found : α → Session Entry → ω → Prop}
    (quietly : routine.Quietly (movement.conduct tree) (movement.besideStore tree) found session
      world) :
    routine.Quietly ((movement.noting tree notes).barring barred)
      (sparing (movement.besideStore tree) barred) found session world :=
  (quietly.mono_conduct fun _ _ _ _ _ _
    (accepted : movement.noting tree notes _ _ _ _ _ _) => accepted.1).barring

/-- The same, with what is noted of it. -/
theorem quietly_noting {routine : Routine (Session Entry) α}
    {found met : α → Session Entry → ω → Prop}
    (quietly : routine.Quietly (movement.conduct tree) (movement.besideStore tree) found session
      world)
    (records : Records tree movement.headOf notes met (fun _ => True) routine session world) :
    routine.Quietly ((movement.noting tree notes).barring barred)
      (sparing (movement.besideStore tree) barred)
      (fun value after later => found value after later ∧ met value after later) session world := by
  have recorded := Keeps.mono_conduct records fun _ _ _ _ _ _
    (accepted : (movement.noting tree notes).barring barred _ _ _ _ _ _) =>
      ⟨⟨⟨accepted.1.1.1.1, accepted.1.1.1.2.1, trivial⟩, accepted.1.1.2⟩, accepted.1.2⟩
  refine ((Keeps.and (quietly_barring quietly) recorded).mono_invariant
    fun _ _ holds => holds.1).mono fun outcome after later holds => ?_
  cases outcome with
  | value value => exact ⟨holds.1.1, holds.1.2, holds.2⟩
  | error error => exact holds.1
  | halted cause => exact holds.1

end Session

end ReorgSync
