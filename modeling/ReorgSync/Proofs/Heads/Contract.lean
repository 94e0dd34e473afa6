import ReorgSync.Proofs.Heads.Watched
import ReorgSync.Proofs.Tree.Node

namespace ReorgSync

/-! What a source of heads owes to its handler. Which block is due is told by what was handed
over before and how that ended, and not by what the source remembers of it. -/

namespace Heads

/-! ## What is handed over -/

def Moment.handing? : Moment ε → Option (Block × Except SyncError Unit)
  | .handed block outcome => some (block, outcome)
  | _ => none

def Moment.event? : Moment ε → Option ε
  | .came event => some event
  | _ => none

/-- A block was refused for a reason that a later one may clear. -/
def isRefusal : Except SyncError Unit → Bool
  | .ok () => false
  | .error cause => cause.isTransient

/-- A block is to be handed over if nothing was handed over before, if the last block was
refused, or if it is another one than the last. -/
def IsDue (past : List (Moment ε)) (block : Block) : Prop :=
  ∀ last ∈ (past.filterMap Moment.handing?).getLast?,
    isRefusal last.2 ∨ last.1.hash ≠ block.hash

instance (past : List (Moment ε)) (block : Block) : Decidable (IsDue past block) :=
  inferInstanceAs (Decidable (∀ last ∈ (past.filterMap Moment.handing?).getLast?,
    isRefusal last.2 ∨ last.1.hash ≠ block.hash))

/-- What a source is to hand over, and what may end it from outside. -/
structure Contract (ε : Type) where
  /-- The block that an event asks to be handed over. -/
  due : List (Moment ε) → ε → Option Block
  stops : List (Moment ε) → Stop → Prop

/-- The answers to polls. A failed poll, and one without a block, ask for nothing. -/
def polling : Contract (Except NodeError (Option Block)) where
  due
    | past, .ok (some block) => if IsDue past block then some block else none
    | _, _ => none
  stops _ stop := stop = .canceled

/-- The messages of a subscription. A message that does not describe a block asks for nothing.
Nothing can be heard before the node has accepted the subscription. -/
def listening : Contract Json where
  due _ payload := (Block.decoder.ofJson payload).toOption
  stops past stop := ∀ error, stop = .refused error → past = []

namespace Contract

/-- A past in which each event was followed by the handing over that was due, if one was, and
nothing else was handed over. -/
inductive Course (contract : Contract ε) : List (Moment ε) → Prop
  | begun : Course contract []
  | passed {past : List (Moment ε)} {event : ε} (course : Course contract past)
      (nothing : contract.due past event = none) : Course contract (past ++ [.came event])
  | handed {past : List (Moment ε)} {event : ε} {block : Block} {outcome : Except SyncError Unit}
      (course : Course contract past) (isDue : contract.due past event = some block)
      (goesOn : outcome = .ok () ∨ isRefusal outcome) :
      Course contract (past ++ [.came event, .handed block outcome])

/-- How a source may end. A handler ends it with an error that is not transient, and nothing
is handed over behind that. It is cut off only after so many events. -/
inductive Ends (contract : Contract ε) (turns : Nat) : Outcome Unit → List (Moment ε) → Prop
  | stopped {past : List (Moment ε)} {stop : Stop} (course : Course contract past)
      (stops : contract.stops past stop) :
      Ends contract turns stop.outcome (past ++ [.stopped stop])
  | failed {past : List (Moment ε)} {event : ε} {block : Block} {cause : SyncError}
      (course : Course contract past) (isDue : contract.due past event = some block)
      (isFatal : cause.isTransient = false) :
      Ends contract turns (.error cause) (past ++ [.came event, .handed block (.error cause)])
  | exhausted {past : List (Moment ε)} (course : Course contract past)
      (count : (past.filterMap Moment.event?).length = turns) :
      Ends contract turns (.halted .exhausted) past

end Contract

/-! ## Following a handler -/

section

variable {watch : Watch ε} {watched : Watched σ ε} {world : ω}

theorem keeps_recorded {handler : Block → Routine σ Unit} {block : Block}
    (finishes : (handler block).Finishes) :
    (recorded handler block).Keeps (Conduct.watched watch) (fun _ _ => True)
      (fun outcome after _ => ∃ result, outcome.attempt = .value result ∧
        after.moments = watched.moments ++ [.handed block result]) watched world := by
  let zoomed : Routine (Watched σ ε) Unit :=
    (handler block).zoom Watched.state fun state watched => { watched with state }
  have ends : zoomed.Keeps (Conduct.watched watch) (fun _ _ => True)
      (fun outcome _ _ => outcome.HasReturned) watched world :=
    finishes.zoom.keeps_hasReturned
  rw [recorded]
  apply Routine.Keeps.get_andThen
  apply (Routine.Keeps.attempted ends).sequence
  · intro result after later _
    refine ⟨trivial, ?_⟩
    cases result with
    | ok value => exact ⟨.ok (), rfl, rfl⟩
    | error cause => exact ⟨.error cause, rfl, rfl⟩
  · exact fun cause after later never => never.elim
  · exact fun cause after later never => never.elim

/-- An answer adds the moments that it tells. -/
theorem keeps_question {question : Query} {second : question.Answer → Routine (Watched σ ε) β}
    {ends : Outcome β → Watched σ ε → ω → Prop} {state : σ} {past : List (Moment ε)} {world : ω}
    (continues : ∀ answer after later, (second answer).Keeps (Conduct.watched watch)
      (fun _ _ => True) ends ⟨after, past ++ watch question answer⟩ later) :
    (Routine.query question >>= second).Keeps (Conduct.watched watch) (fun _ _ => True) ends
      ⟨state, past⟩ world := by
  rintro answer ⟨after, moments⟩ later rfl
  exact continues answer after later

theorem keeps_silent {question : Query} {second : question.Answer → Routine (Watched σ ε) β}
    {ends : Outcome β → Watched σ ε → ω → Prop} {state : σ} {past : List (Moment ε)} {world : ω}
    (silent : ∀ answer, watch question answer = [])
    (continues : ∀ answer after later, (second answer).Keeps (Conduct.watched watch)
      (fun _ _ => True) ends ⟨after, past⟩ later) :
    (Routine.query question >>= second).Keeps (Conduct.watched watch) (fun _ _ => True) ends
      ⟨state, past⟩ world := by
  refine keeps_question fun answer after later => ?_
  rw [silent, List.append_nil]
  exact continues answer after later

/-- How a source takes the outcome of its handler. -/
inductive Delivers : Outcome Handled → Except SyncError Unit → Prop
  | accepted : Delivers (.value .accepted) (.ok ())
  | refused {cause : SyncError} (isTransient : cause.isTransient = true) :
      Delivers (.value .refused) (.error cause)
  | failed {cause : SyncError} (isFatal : cause.isTransient = false) :
      Delivers (.error cause) (.error cause)

theorem keeps_deliver {handler : Block → Routine σ Unit} {block : Block}
    (finishes : (handler block).Finishes) :
    (deliver (recorded handler) block).Keeps (Conduct.watched watch) (fun _ _ => True)
      (fun outcome after _ => ∃ result, Delivers outcome result ∧
        after.moments = watched.moments ++ [.handed block result]) watched world := by
  rw [deliver]
  apply (Routine.Keeps.attempted (keeps_recorded finishes)).sequence
  · intro result after later recorded
    cases result with
    | ok value =>
        rcases recorded with ⟨result, same, moments⟩
        cases same
        exact ⟨.ok (), .accepted, moments⟩
    | error cause =>
        rcases recorded with ⟨result, same, moments⟩
        cases same
        dsimp only
        cases isTransient : cause.isTransient with
        | true => exact ⟨.error cause, .refused isTransient, moments⟩
        | false => exact ⟨.error cause, .failed isTransient, moments⟩
  · exact fun cause after later never => never.elim
  · rintro cause after later ⟨result, same, -⟩
    cases same

end

/-! ## Following a source -/

namespace Contract

/-- How a turn of a source may end, where each place of the source agrees with its past. -/
inductive Turn (contract : Contract ε) (agrees : β → List (Moment ε) → Prop)
    (past : List (Moment ε)) : Outcome (β ⊕ Unit) → List (Moment ε) → Prop
  | passed {event : ε} {next : β} (nothing : contract.due past event = none)
      (agreesThen : agrees next (past ++ [.came event])) :
      Turn contract agrees past (.value (.inl next)) (past ++ [.came event])
  | handed {event : ε} {block : Block} {outcome : Except SyncError Unit} {next : β}
      (isDue : contract.due past event = some block) (goesOn : outcome = .ok () ∨ isRefusal outcome)
      (agreesThen : agrees next (past ++ [.came event, .handed block outcome])) :
      Turn contract agrees past (.value (.inl next)) (past ++ [.came event, .handed block outcome])
  | canceled (stops : contract.stops past .canceled) :
      Turn contract agrees past (.value (.inr ())) (past ++ [.stopped .canceled])
  | closed (stops : contract.stops past .closed) :
      Turn contract agrees past (.error subscriptionClosed) (past ++ [.stopped .closed])
  | failed {event : ε} {block : Block} {cause : SyncError}
      (isDue : contract.due past event = some block) (isFatal : cause.isTransient = false) :
      Turn contract agrees past (.error cause) (past ++ [.came event, .handed block (.error cause)])

theorem keeps_iterate {contract : Contract ε} {watch : Watch ε}
    {step : β → Routine (Watched σ ε) (β ⊕ Unit)} (agrees : β → List (Moment ε) → Prop)
    (turn : ∀ place watched (world : ω), agrees place watched.moments →
      (step place).Keeps (Conduct.watched watch) (fun _ _ => True)
        (fun outcome after _ => contract.Turn agrees watched.moments outcome after.moments)
        watched world)
    {turns total : Nat} {place : β} {watched : Watched σ ε} {world : ω}
    (course : contract.Course watched.moments) (agreesNow : agrees place watched.moments)
    (counted : (watched.moments.filterMap Moment.event?).length + turns = total) :
    (Routine.iterate step turns place).Keeps (Conduct.watched watch) (fun _ _ => True)
      (fun outcome after _ => contract.Ends total outcome after.moments) watched world := by
  induction turns generalizing place watched world with
  | zero => exact .exhausted course counted
  | succ turns induction =>
      apply (turn place watched world agreesNow).sequence
      · rintro result ⟨after, moments⟩ later taken
        dsimp only at taken
        cases taken with
        | passed nothing agreesThen =>
            apply induction (course.passed nothing) agreesThen
            simp only [List.filterMap_append, List.length_append]
            exact (Nat.add_right_comm _ 1 turns).trans counted
        | handed isDue goesOn agreesThen =>
            apply induction (course.handed isDue goesOn) agreesThen
            simp only [List.filterMap_append, List.length_append]
            exact (Nat.add_right_comm _ 1 turns).trans counted
        | canceled stops => exact .stopped course stops
      · rintro cause ⟨after, moments⟩ later taken
        dsimp only at taken ⊢
        cases taken with
        | closed stops => exact .stopped course stops
        | failed isDue isFatal => exact .failed course isDue isFatal
      · intro cause after later taken
        cases taken

end Contract

/-- A block that is due is handed over, and its handler decides how the turn ends. -/
theorem keeps_handing {contract : Contract ε} {watch : Watch ε}
    {agrees : β → List (Moment ε) → Prop} {handler : Block → Routine σ Unit} {block : Block}
    {second : Handled → Routine (Watched σ ε) (β ⊕ Unit)} {state : σ} {past : List (Moment ε)}
    {event : ε} {world : ω} (next : Handled → β) (finishes : (handler block).Finishes)
    (isDue : contract.due past event = some block)
    (goesOn : ∀ handled, second handled = .done (.inl (next handled)))
    (accepted : agrees (next .accepted) (past ++ [.came event, .handed block (.ok ())]))
    (refused : ∀ cause : SyncError, cause.isTransient = true →
      agrees (next .refused) (past ++ [.came event, .handed block (.error cause)])) :
    (deliver (recorded handler) block >>= second).Keeps (Conduct.watched watch) (fun _ _ => True)
      (fun outcome after _ => contract.Turn agrees past outcome after.moments)
      ⟨state, past ++ [.came event]⟩ world := by
  apply (keeps_deliver finishes).sequence
  · rintro handled ⟨after, _⟩ later ⟨result, delivers, rfl⟩
    rw [goesOn]
    dsimp only
    rw [List.append_assoc]
    cases delivers with
    | accepted => exact .handed isDue (.inl rfl) accepted
    | refused isTransient => exact .handed isDue (.inr isTransient) (refused _ isTransient)
  · rintro cause ⟨after, _⟩ later ⟨result, delivers, rfl⟩
    dsimp only
    rw [List.append_assoc]
    cases delivers with
    | failed isFatal => exact .failed isDue isFatal
  · rintro cause after later ⟨result, delivers, -⟩
    cases delivers

/-! ### Polling -/

/-- The moments of a polling source. -/
def polled : Watch (Except NodeError (Option Block))
  | .wait _, true => [.stopped .canceled]
  | .cancelableNode (.blockByTag .latest), none => [.stopped .canceled]
  | .cancelableNode (.blockByTag .latest), some reply => [.came reply]
  | _, _ => []

theorem isDue_came (past : List (Moment ε)) (event : ε) (block : Block) :
    IsDue (past ++ [.came event]) block ↔ IsDue past block := by
  simp [IsDue, Moment.handing?]

theorem isDue_handed (past : List (Moment ε)) (event : ε) (last block : Block)
    (outcome : Except SyncError Unit) :
    IsDue (past ++ [.came event, .handed last outcome]) block ↔
      isRefusal outcome ∨ last.hash ≠ block.hash := by
  have handings : (past ++ [Moment.came event, .handed last outcome]).filterMap Moment.handing? =
      past.filterMap Moment.handing? ++ [(last, outcome)] := List.filterMap_append
  simp [IsDue, handings]

/-- The last hash is that of the one block that is not due. -/
def Polling.Agrees (polling : Polling) (past : List (Moment ε)) : Prop :=
  ∀ block : Block, polling.lastHash = some block.hash ↔ ¬ IsDue past block

theorem Polling.Agrees.accepted {polling : Polling} (past : List (Moment ε)) (event : ε)
    {last : Block} (same : polling.lastHash = some last.hash) :
    polling.Agrees (past ++ [.came event, .handed last (.ok ())]) := by
  intro block
  rw [isDue_handed, same]
  simp [isRefusal]

theorem Polling.Agrees.refused {polling : Polling} (past : List (Moment ε)) (event : ε)
    (last : Block) {cause : SyncError} (isTransient : cause.isTransient = true)
    (forgotten : polling.lastHash = none) :
    polling.Agrees (past ++ [.came event, .handed last (.error cause)]) := by
  intro block
  rw [isDue_handed, forgotten]
  simp [isRefusal, isTransient]

theorem Polling.Agrees.passed {polling : Polling} {past : List (Moment ε)}
    (agrees : polling.Agrees past) (event : ε) : polling.Agrees (past ++ [.came event]) := by
  intro block
  rw [isDue_came]
  exact agrees block

/-- Where a polling source stands behind a block that it has handed over. -/
def Polling.behind (ticker : Ticker) (block : Block) : Handled → Polling
  | .accepted => ⟨ticker, some block.hash⟩
  | .refused => ⟨ticker, none⟩

theorem keeps_pollingStep {handler : Block → Routine σ Unit}
    (finishes : ∀ block, (handler block).Finishes) (place : Polling) (watched : Watched σ _)
    (world : ω) (agrees : place.Agrees watched.moments) :
    (Polling.step (recorded handler) place).Keeps (Conduct.watched polled) (fun _ _ => True)
      (fun outcome after _ => polling.Turn Polling.Agrees watched.moments outcome after.moments)
      watched world := by
  rcases watched with ⟨state, past⟩
  dsimp only at agrees ⊢
  rw [Polling.step]
  refine keeps_silent (fun _ => rfl) fun before state world => ?_
  refine keeps_question fun isCanceled state world => ?_
  cases isCanceled with
  | true => exact .canceled rfl
  | false =>
      rw [show past ++ polled (.wait _) false = past from List.append_nil past,
        if_neg Bool.false_ne_true]
      refine keeps_silent (fun _ => rfl) fun now state world => ?_
      refine keeps_question fun reply? state world => ?_
      rcases reply? with _ | error | _ | block
      · exact .canceled rfl
      · exact .passed rfl (Polling.Agrees.passed agrees _)
      · exact .passed rfl (Polling.Agrees.passed agrees _)
      · dsimp only
        rw [Polling.offer]
        -- What the source remembers is compared here with what it has done.
        split
        next known =>
          have nothing : polling.due past (.ok (some block)) = none :=
            if_neg ((agrees block).mp known)
          exact .passed nothing (Polling.Agrees.passed agrees _)
        next unknown =>
          have isDue : polling.due past (.ok (some block)) = some block :=
            if_pos (Classical.not_not.mp (unknown ∘ (agrees block).mpr))
          simp only [bind_assoc]
          let ticker := place.ticker.rearm now
          refine keeps_handing (Polling.behind ticker block) (finishes block) isDue ?_
            (Polling.Agrees.accepted past _ rfl) fun cause isTransient =>
              Polling.Agrees.refused past _ block isTransient rfl
          exact fun handled => by cases handled <;> rfl

/-! ### Listening -/

/-- The moments of a source that listens. -/
def announced : Watch Json
  | .subscribe _, none => [.stopped .canceled]
  | .subscribe _, some (.error error) => [.stopped (.refused error)]
  | .arrival, .canceled => [.stopped .canceled]
  | .arrival, .closed => [.stopped .closed]
  | .arrival, .message payload => [.came payload]
  | _, _ => []

theorem keeps_notificationStep {handler : Block → Routine σ Unit}
    (finishes : ∀ block, (handler block).Finishes) (watched : Watched σ _) (world : ω) :
    (notificationStep (recorded handler)).Keeps (Conduct.watched announced) (fun _ _ => True)
      (fun outcome after _ => listening.Turn (fun _ _ => True) watched.moments outcome
        after.moments) watched world := by
  rcases watched with ⟨state, past⟩
  dsimp only
  rw [notificationStep]
  refine keeps_question fun arrival state world => ?_
  cases arrival with
  | canceled => exact .canceled nofun
  | closed => exact .closed nofun
  | message payload =>
      dsimp only
      cases decoded : Block.decoder.ofJson payload with
      | error cause =>
          have nothing : listening.due past payload = none := congrArg Except.toOption decoded
          exact .passed nothing trivial
      | ok block =>
          have isDue : listening.due past payload = some block := congrArg Except.toOption decoded
          exact keeps_handing (fun _ => ()) (finishes block) isDue (fun _ => rfl) trivial
            fun _ _ => trivial

/-! ## The contracts -/

theorem shows_deliver {surroundings : Surroundings σ ω} {watch : Watch ε}
    (handler : Block → Routine σ Unit) (block : Block) :
    Shows surroundings watch (deliver (recorded handler) block) (deliver handler block) := by
  refine (Shows.recorded handler block).attempt.andThen fun outcome => ?_
  cases outcome with
  | ok value => exact .done _
  | error cause =>
      dsimp only
      split
      · exact .done _
      · exact .fail cause

theorem shows_poll {surroundings : Surroundings σ ω} (handler : Block → Routine σ Unit)
    (period turns : Nat) :
    Shows surroundings polled (poll (recorded handler) period turns)
      (poll handler period turns) := by
  refine (Shows.query .now).andThen fun now => ?_
  refine .iterate (fun place => ?_) turns _
  refine (Shows.query .now).andThen fun before => ?_
  refine (Shows.query _).andThen fun isCanceled => ?_
  cases isCanceled with
  | true => exact .done _
  | false =>
      refine (Shows.query .now).andThen fun now => ?_
      refine (Shows.query _).andThen fun reply? => ?_
      rcases reply? with _ | error | _ | block
      · exact .done _
      · exact .done _
      · exact .done _
      · refine Shows.andThen ?_ fun lastHash => .done _
        rw [Polling.offer, Polling.offer]
        split
        · exact .done _
        · refine (shows_deliver handler block).andThen fun handled => ?_
          cases handled <;> exact .done _

theorem shows_listen {surroundings : Surroundings σ ω} (handler : Block → Routine σ Unit)
    (topic : String) (turns : Nat) :
    Shows surroundings announced (listen (recorded handler) topic turns)
      (listen handler topic turns) := by
  refine (Shows.query _).andThen fun accepted? => ?_
  rcases accepted? with _ | error | _
  · exact .done _
  · exact .fail _
  · refine .iterate (fun _ => ?_) turns _
    refine (Shows.query .arrival).andThen fun arrival => ?_
    cases arrival with
    | canceled => exact .done _
    | closed => exact .fail _
    | message payload =>
        dsimp only
        split
        · exact .done _
        · exact (shows_deliver handler _).andThen fun _ => .done _

/-- A source of heads hands over what it owes to its handler, and nothing else, and it ends
only as it may. -/
theorem sources_keep_contracts (surroundings : Surroundings σ ω)
    (handler : Block → Routine σ Unit) (finishes : ∀ block, (handler block).Finishes)
    (period turns : Nat) (topic : String) (state : σ) (world : ω) :
    let polls := (poll (recorded handler) period turns).run (surroundings.watching polled)
      ⟨state, []⟩ world
    let listens := (listen (recorded handler) topic turns).run (surroundings.watching announced)
      ⟨state, []⟩ world
    ((poll handler period turns).run surroundings state world =
        (polls.1, polls.2.1.state, polls.2.2) ∧
      polling.Ends turns polls.1 polls.2.1.moments) ∧
    (listen handler topic turns).run surroundings state world =
        (listens.1, listens.2.1.state, listens.2.2) ∧
      listening.Ends turns listens.1 listens.2.1.moments := by
  intro polls listens
  refine ⟨⟨shows_poll handler period turns state [] world, ?_⟩,
    shows_listen handler topic turns state [] world, ?_⟩
  · have keeps : (poll (recorded handler) period turns).Keeps (Conduct.watched polled)
        (fun _ _ => True) (fun outcome after _ => polling.Ends turns outcome after.moments)
        ⟨state, []⟩ world := by
      rw [poll]
      refine keeps_silent (fun _ => rfl) fun now state world => ?_
      refine Contract.keeps_iterate Polling.Agrees (keeps_pollingStep finishes) .begun ?_
        (Nat.zero_add turns)
      exact fun block => ⟨nofun, fun notDue => absurd nofun notDue⟩
    exact keeps.run (Routine.followedBy_of_follows (surroundings.watching_follows polled) _ _ _)
  · have keeps : (listen (recorded handler) topic turns).Keeps (Conduct.watched announced)
        (fun _ _ => True) (fun outcome after _ => listening.Ends turns outcome after.moments)
        ⟨state, []⟩ world := by
      rw [listen]
      refine keeps_question fun accepted? state world => ?_
      rcases accepted? with _ | error | _
      · have stops : listening.stops [] .canceled := nofun
        exact Contract.Ends.stopped .begun stops
      · have stops : listening.stops [] (.refused error) := fun _ _ => rfl
        exact Contract.Ends.stopped .begun stops
      · exact Contract.keeps_iterate (fun _ _ => True)
          (fun _ watched world _ => keeps_notificationStep finishes watched world) .begun trivial
          (Nat.zero_add turns)
    exact keeps.run
      (Routine.followedBy_of_follows (surroundings.watching_follows announced) _ _ _)

/-- A handler that refuses the first block that it is handed. -/
def hesitant (_ : Block) : Routine Nat Unit := do
  Routine.modify (· + 1)
  if (← Routine.get id) = 1 then .fail (.blockNotFound "parent") else return ()

/-- A block that was refused is handed over once more, and not a third time. -/
theorem contracts_kept_by_hesitant :
    (∀ block, (hesitant block).Finishes) ∧
    polling.Ends 3 (.halted .exhausted)
      [.came (.ok (some Fork.root)), .handed Fork.root (.error (.blockNotFound "parent")),
        .came (.ok (some Fork.root)), .handed Fork.root (.ok ()),
        .came (.ok (some Fork.root))] := by
  have finishes : ∀ block, (hesitant block).Finishes := by
    intro block before count
    change (if count = 1 then _ else _ : Routine Nat Unit).Finishes
    split <;> trivial
  let surroundings : Surroundings Nat Unit :=
    .calm (fun _ _ => Fork.tree.reply 1 none "" Fork.root) fun _ _ => ()
  refine ⟨finishes, ?_⟩
  exact (sources_keep_contracts surroundings hesitant finishes 0 3 "" 0 ()).1.2

end Heads

end ReorgSync
