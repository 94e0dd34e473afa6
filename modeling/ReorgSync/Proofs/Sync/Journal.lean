import ReorgSync.Proofs.Feed
import ReorgSync.Proofs.Routine.Quietly
import ReorgSync.Proofs.Store.Faithful
import ReorgSync.Sync.Session

namespace ReorgSync

/-! A session writes each event to its store and then publishes it. Between the two
nothing else happens, and nothing else changes what is stored. -/

namespace Session

open Routine (Quietly)

variable {ε ω : Type} [EntryStore ε] [FaithfulStore ε]

def ledger (session : Session ε) : Ledger :=
  FaithfulStore.ledger session.entry

/-- What may happen beside a session that is the only writer of its entry. -/
def besideLedger (before : Session ε) (_ : ω) (after : Session ε) (_ : ω) : Prop :=
  after.ledger = before.ledger ∧ after.events = before.events

instance : IsPassing (besideLedger (ε := ε) (ω := ω)) where
  refl _ _ := ⟨rfl, rfl⟩
  trans earlier later := ⟨later.1.trans earlier.1, later.2.trans earlier.2⟩

/-- What one write does, with the event that is stored but not yet published before and
after it. -/
inductive Writes (before after : Session ε) : Option Event → Option Event → Prop
  | other (ledger : after.ledger = before.ledger) (events : after.events = before.events) :
      Writes before after none none
  | store (event : Event) (isExact : event.IsExact before.ledger)
      (stored : EntryStore.apply before.entry event = .ok after.entry)
      (events : after.events = before.events) : Writes before after none (some event)
  | publish (event : Event) (ledger : after.ledger = before.ledger)
      (events : after.events = before.events.publish event) :
      Writes before after (some event) none

end Session

namespace Routine

open Session (besideLedger Writes)

variable {ε ω : Type} [EntryStore ε] [FaithfulStore ε] {session : Session ε} {world : ω}
  {pending : Option Event}

/-- Whatever the surroundings answer, the routine stores only exact events, and publishes
each of them at once. -/
def Journals : Option Event → Routine (Session ε) α → Session ε → ω → Prop
  | pending, .done _, _, _ => pending = none
  | pending, .fail _, _, _ => pending = none
  | pending, .halted _, _, _ => pending = none
  | pending, .read next, session, world => Journals pending (next session) session world
  | pending, .write changed next, session, world =>
      ∃ pendingThen, Writes session changed pending pendingThen ∧
        Journals pendingThen next changed world
  | pending, .ask _ next, session, world =>
      pending = none ∧ ∀ answer after later, besideLedger session world after later →
        Journals none (next answer) after later

namespace Journals

theorem bind {first : Routine (Session ε) α} {second : α → Routine (Session ε) β}
    (journals : first.Journals pending session world)
    (continues : ∀ value (after : Session ε) (later : ω),
      (second value).Journals none after later) :
    (first >>= second).Journals pending session world := by
  rw [bind_eq]
  induction first generalizing pending session world with
  | done value =>
      rw [show pending = none from journals]
      exact continues value session world
  | fail error => exact journals
  | halted cause => exact journals
  | read next induction => exact induction session journals
  | write changed next induction =>
      rcases journals with ⟨pendingThen, writes, journals⟩
      exact ⟨pendingThen, writes, induction journals⟩
  | ask query next induction =>
      exact ⟨journals.1, fun answer after later passed =>
        induction answer (journals.2 answer after later passed)⟩

theorem computes {routine : Routine (Session ε) α} {value : α} (computes : routine.Computes value) :
    routine.Journals none session world := by
  cases computes <;> exact rfl

/-- Reading a part of the session takes no time. -/
theorem get_andThen {part : Session ε → α} {second : α → Routine (Session ε) β}
    (continues : (second (part session)).Journals pending session world) :
    (Routine.get part >>= second).Journals pending session world :=
  continues

/-- What is read of the entry holds as long as nothing is stored. -/
theorem readEntry {read : ε → Except SyncError α} {second : α → Routine (Session ε) β}
    (continues : ∀ value, read session.entry = .ok value →
      (second value).Journals none session world) :
    (Session.readEntry read >>= second).Journals none session world := by
  show Journals none (Routine.ofExcept (read session.entry) >>= second) session world
  cases found : read session.entry with
  | error error => exact rfl
  | ok value => exact continues value found

theorem attempt {routine : Routine (Session ε) α}
    (journals : routine.Journals pending session world) :
    routine.attempt.Journals pending session world := by
  induction routine generalizing pending session world with
  | done value => exact journals
  | fail error => exact journals
  | halted cause => exact journals
  | read next induction => exact induction session journals
  | write changed next induction =>
      rcases journals with ⟨pendingThen, writes, journals⟩
      exact ⟨pendingThen, writes, induction journals⟩
  | ask query next induction =>
      exact ⟨journals.1, fun answer after later passed =>
        induction answer (journals.2 answer after later passed)⟩

theorem iterate {step : β → Routine (Session ε) (β ⊕ α)}
    (turn : ∀ place (session : Session ε) (world : ω), (step place).Journals none session world)
    (turns : Nat) (place : β) :
    (Routine.iterate step turns place).Journals none session world := by
  induction turns generalizing place session world with
  | zero => exact rfl
  | succ turns induction =>
      refine bind (turn place session world) fun result after later => ?_
      cases result with
      | inl place => exact induction place
      | inr value => exact rfl

theorem inTurn {works : List (Routine (Session ε) Unit)}
    (each : ∀ work ∈ works, ∀ (session : Session ε) (world : ω), work.Journals none session world) :
    (Routine.inTurn works).Journals none session world := by
  induction works generalizing session world with
  | nil => exact rfl
  | cons work rest induction =>
      refine bind (attempt (each work List.mem_cons_self session world)) fun _ _ _ => ?_
      exact induction fun next member => each next (List.mem_cons_of_mem work member)

/-- Quiet work in front of work that stores. -/
theorem after_quiet {first : Routine (Session ε) α} {second : α → Routine (Session ε) β}
    {found : α → Session ε → ω → Prop}
    (quietly : first.Quietly (Conduct.free besideLedger) besideLedger found session world)
    (continues : ∀ value after later, besideLedger session world after later →
      found value after later → (second value).Journals none after later) :
    (first >>= second).Journals none session world := by
  have follows : ∀ now late, besideLedger session world now late →
      first.Keeps (Conduct.free besideLedger) (besideLedger session world)
        (Outcome.Meets (fun value after later =>
            besideLedger session world after later ∧ found value after later)
          (besideLedger session world)) now late →
      (first >>= second).Journals none now late := by
    rw [bind_eq]
    clear quietly
    induction first with
    | done value => exact fun now late _ keeps => continues value now late keeps.1 keeps.2
    | fail error => exact fun _ _ _ _ => rfl
    | halted cause => exact fun _ _ _ _ => rfl
    | read next induction => exact fun now late passed keeps => induction now now late passed keeps
    | write changed next induction =>
        intro now late passed keeps
        refine ⟨none, .other ?_ ?_, induction changed late keeps.1 keeps.2⟩
        · exact keeps.1.1.trans passed.1.symm
        · exact keeps.1.2.trans passed.2.symm
    | ask query next induction =>
        exact fun now late passed keeps => ⟨rfl, fun answer after later passedThen =>
          induction answer after later (IsPassing.trans passed passedThen)
            (keeps answer after later passedThen)⟩
  exact follows session world (IsPassing.refl session world) quietly

end Journals

/-- Wherever a run comes to, it goes on to store exact events and to publish them. -/
theorem Journals.reaches {before after : Situation (Session ε) ω α}
    (journals : before.rest.Journals pending before.state before.world)
    (reached : Situation.Reaches (Conduct.free besideLedger) before after) :
    ∃ pendingThen, after.rest.Journals pendingThen after.state after.world := by
  induction reached with
  | refl => exact ⟨pending, journals⟩
  | tail _ step induction =>
      rcases induction with ⟨pendingThen, journals⟩
      cases step with
      | read => exact ⟨pendingThen, journals⟩
      | write => exact journals.imp fun _ holds => holds.2
      | ask accepted => exact ⟨none, journals.2 _ _ _ accepted⟩

/-! ## Between a store and its publication -/

/-- What the next write leaves, if it comes before the next question. -/
def nextWrite : Routine σ α → σ → Option σ
  | .read next, state => (next state).nextWrite state
  | .write changed _, _ => some changed
  | _, _ => none

theorem Journals.nextWrite_some {routine : Routine (Session ε) α} {event : Event}
    (journals : routine.Journals (some event) session world) :
    ∃ changed, routine.nextWrite session = some changed ∧
      changed.events = session.events.publish event := by
  induction routine with
  | done value => cases journals
  | fail error => cases journals
  | halted cause => cases journals
  | read next induction => exact induction session journals
  | write changed next induction =>
      rcases journals with ⟨pendingThen, writes, -⟩
      cases writes with
      | publish _ ledger events => exact ⟨changed, rfl, events⟩
  | ask query next induction => cases journals.1

theorem Journals.nextWrite_none {routine : Routine (Session ε) α} {changed : Session ε}
    (journals : routine.Journals none session world)
    (isNext : routine.nextWrite session = some changed) : changed.events = session.events := by
  induction routine with
  | read next induction => exact induction session journals isNext
  | write changed next induction =>
      cases isNext
      rcases journals with ⟨pendingThen, writes, -⟩
      cases writes with
      | other ledger events => exact events
      | store event isExact stored events => exact events
  | _ => cases isNext

end Routine

/-- An event is stored, and its publication is the next thing that is written. -/
def Situation.IsPublishing (now : Situation (Session ε) ω α) : Prop :=
  ∃ changed, now.rest.nextWrite now.state = some changed ∧
    changed.events.published ≠ now.state.events.published

theorem Routine.Journals.isPublishing_iff {ε ω : Type} [EntryStore ε] [FaithfulStore ε]
    {now : Situation (Session ε) ω α} {pending : Option Event}
    (journals : now.rest.Journals pending now.state now.world) :
    now.IsPublishing ↔ pending ≠ none := by
  cases pending with
  | none =>
      refine ⟨?_, fun never => absurd rfl never⟩
      rintro ⟨changed, isNext, moved⟩
      rw [journals.nextWrite_none isNext] at moved
      exact absurd rfl moved
  | some event =>
      rcases journals.nextWrite_some with ⟨changed, isNext, events⟩
      refine ⟨fun _ => nofun, fun _ => ⟨changed, isNext, ?_⟩⟩
      rw [events, Feed.published_publish]
      exact Nat.succ_ne_self _

namespace Session

variable {ε ω : Type} [EntryStore ε] [FaithfulStore ε]
  {opened now next : Situation (Session ε) ω α} {events : List Event} {pending : Option Event}

/-! ## The journal of a run -/

/-- Some time between two moments an event was stored, with success, behind the events in
front of it; what it lists as removed was cut off then. -/
structure WasStored (opened now : Situation (Session ε) ω α) (front : List Event)
    (event : Event) : Prop where
  isExact : event.IsExact (opened.state.ledger.followAll front)
  stored : ∃ moment stored, Situation.Reaches (Conduct.free besideLedger) opened moment ∧
    Situation.Reaches (Conduct.free besideLedger) moment now ∧
    moment.state.ledger = opened.state.ledger.followAll front ∧
    EntryStore.apply moment.state.entry event = .ok stored

theorem WasStored.step {front : List Event} {event : Event}
    (wasStored : WasStored opened now front event)
    (step : Situation.Step (Conduct.free besideLedger) now next) :
    WasStored opened next front event := by
  rcases wasStored with ⟨isExact, moment, stored, before, behind, same, applied⟩
  exact ⟨isExact, moment, stored, before, behind.tail step, same, applied⟩

/-- The events that were published since a moment, and the one that is stored but not
yet published. -/
structure Logged (opened now : Situation (Session ε) ω α) (events : List Event)
    (pending : Option Event) : Prop where
  reached : Situation.Reaches (Conduct.free besideLedger) opened now
  journals : now.rest.Journals pending now.state now.world
  published : now.state.events = opened.state.events.publishAll events
  ledger : now.state.ledger = opened.state.ledger.followAll (events ++ pending.toList)
  stored : ∀ front event back, events ++ pending.toList = front ++ event :: back →
    WasStored opened now front event

/-- Nothing is stored or published in a step. -/
theorem Logged.step_quiet (logged : Logged opened now events pending)
    (step : Situation.Step (Conduct.free besideLedger) now next)
    (journals : next.rest.Journals pending next.state next.world)
    (ledger : next.state.ledger = now.state.ledger)
    (published : next.state.events = now.state.events) : Logged opened next events pending where
  reached := logged.reached.tail step
  journals := journals
  published := published.trans logged.published
  ledger := ledger.trans logged.ledger
  stored front event back split := (logged.stored front event back split).step step

/-- An event is stored in a step. -/
theorem Logged.step_store {event : Event} (logged : Logged opened now events none)
    (step : Situation.Step (Conduct.free besideLedger) now next)
    (journals : next.rest.Journals (some event) next.state next.world)
    (isExact : event.IsExact now.state.ledger)
    (applied : EntryStore.apply now.state.entry event = .ok next.state.entry)
    (published : next.state.events = now.state.events) :
    Logged opened next events (some event) := by
  have ledger : now.state.ledger = opened.state.ledger.followAll events := by
    rw [logged.ledger, Option.toList_none, List.append_nil]
  refine ⟨logged.reached.tail step, journals, published.trans logged.published, ?_, ?_⟩
  · rw [Option.toList_some, Ledger.followAll_concat, ← ledger]
    exact FaithfulStore.ledger_apply applied
  · intro front earlier back split
    rw [Option.toList_some] at split
    rcases List.eq_nil_or_concat back with rfl | ⟨middle, last, rfl⟩
    · rcases List.append_inj' split rfl with ⟨rfl, same⟩
      cases same
      refine ⟨ledger ▸ isExact, now, _, logged.reached, .single step, ledger, applied⟩
    · rw [List.concat_eq_append, ← List.cons_append, ← List.append_assoc] at split
      rcases List.append_inj' split rfl with ⟨before, -⟩
      have earlierStored := logged.stored front earlier middle (by
        rw [Option.toList_none, List.append_nil, before])
      exact earlierStored.step step

/-- The event that was stored last is published in a step. -/
theorem Logged.step_publish {event : Event} (logged : Logged opened now events (some event))
    (step : Situation.Step (Conduct.free besideLedger) now next)
    (journals : next.rest.Journals none next.state next.world)
    (ledger : next.state.ledger = now.state.ledger)
    (published : next.state.events = now.state.events.publish event) :
    Logged opened next (events ++ [event]) none := by
  have all : events ++ [event] ++ (none : Option Event).toList =
      events ++ (some event).toList := by
    rw [Option.toList_none, Option.toList_some, List.append_nil]
  refine ⟨logged.reached.tail step, journals, ?_, ?_, ?_⟩
  · rw [published, logged.published, Feed.publishAll_concat]
  · rw [all, ledger, logged.ledger]
  · intro front earlier back split
    rw [all] at split
    exact (logged.stored front earlier back split).step step

theorem Logged.step (logged : Logged opened now events pending)
    (step : Situation.Step (Conduct.free besideLedger) now next) :
    ∃ eventsThen pendingThen, Logged opened next eventsThen pendingThen ∧
      events <+: eventsThen := by
  have journals := logged.journals
  have taken := step
  cases taken with
  | read => exact ⟨events, pending, logged.step_quiet step journals rfl rfl, List.prefix_rfl⟩
  | write =>
      rcases journals with ⟨pendingThen, writes, journals⟩
      cases writes with
      | other ledger published =>
          exact ⟨events, none, logged.step_quiet step journals ledger published,
            List.prefix_rfl⟩
      | store event isExact applied published =>
          exact ⟨events, some event,
            logged.step_store step journals isExact applied published, List.prefix_rfl⟩
      | publish event ledger published =>
          exact ⟨events ++ [event], none, logged.step_publish step journals ledger published,
            List.prefix_append _ _⟩
  | ask accepted =>
      rcases journals with ⟨rfl, journals⟩
      exact ⟨events, none, logged.step_quiet step (journals _ _ _ accepted) accepted.1
        accepted.2, List.prefix_rfl⟩

/-! ## Readers -/

/-- A reader subscribes at some moment, and reads at any moments from then on. It has
heard so many events, and stands at a position behind them. -/
inductive Hears (opened : Situation (Session ε) ω α) :
    List Event → Nat → Situation (Session ε) ω α → Prop
  | subscribed : Hears opened [] opened.state.events.tail opened
  | waited {heard : List Event} {position : Nat} {now next : Situation (Session ε) ω α}
      (hears : Hears opened heard position now)
      (step : Situation.Step (Conduct.free besideLedger) now next) :
      Hears opened heard position next
  | read {heard : List Event} {position next : Nat} {event : Event}
      {now : Situation (Session ε) ω α} (hears : Hears opened heard position now)
      (found : now.state.events.tryNext position = (.ok (some event), next)) :
      Hears opened (heard ++ [event]) next now

theorem Hears.wait {heard : List Event} {position : Nat} (hears : Hears opened heard position now)
    (reached : Situation.Reaches (Conduct.free besideLedger) now next) :
    Hears opened heard position next := by
  induction reached with
  | refl => exact hears
  | tail _ step induction => exact induction.waited step

theorem Hears.items {heard events : List Event} {position : Nat}
    (hears : Hears opened heard position now)
    (found : ∀ index (within : index < events.length),
      now.state.events.find (position + index) = .item events[index]) :
    Hears opened (heard ++ events) (position + events.length) now := by
  induction events generalizing heard position with
  | nil => rwa [List.append_nil]
  | cons event rest induction =>
      have isFirst : now.state.events.find position = .item event :=
        found 0 (Nat.zero_lt_succ _)
      have isRead : now.state.events.tryNext position = (.ok (some event), position + 1) := by
        rw [Feed.tryNext, isFirst]
      rw [List.length_cons, Nat.add_comm rest.length 1, ← Nat.add_assoc]
      rw [← List.singleton_append, ← List.append_assoc]
      apply induction (hears.read isRead)
      intro index within
      rw [Nat.add_assoc, Nat.add_comm 1 index]
      exact found (index + 1) (Nat.succ_lt_succ within)

/-- A reader hears the events that were published, in their order. -/
theorem Hears.logged {heard : List Event} {position : Nat}
    (hears : Hears opened heard position now)
    (journals : opened.rest.Journals none opened.state opened.world) :
    ∃ events pending, Logged opened now events pending ∧ heard <+: events ∧
      position = opened.state.events.published + heard.length := by
  induction hears with
  | subscribed =>
      refine ⟨[], none, ⟨.refl, journals, rfl, rfl, ?_⟩, List.prefix_rfl, rfl⟩
      intro front event back split
      simp at split
  | waited hears step induction =>
      rcases induction with ⟨events, pending, logged, heardOf, stands⟩
      rcases logged.step step with ⟨eventsThen, pendingThen, loggedThen, grows⟩
      exact ⟨eventsThen, pendingThen, loggedThen, heardOf.trans grows, stands⟩
  | @read heard position next event now hears found induction =>
      rcases induction with ⟨events, pending, logged, ⟨rest, rfl⟩, rfl⟩
      have item : now.state.events.find (opened.state.events.published + heard.length) =
          .item event ∧ next = opened.state.events.published + heard.length + 1 := by
        rw [Feed.tryNext] at found
        split at found
        · cases found
          exact ⟨by assumption, rfl⟩
        · simp at found
        · simp at found
      rw [logged.published] at item
      have isNext := Feed.getElem?_of_find (Nat.le_add_right _ _) item.1
      rw [Nat.add_sub_cancel_left, List.getElem?_append_right (Nat.le_refl _),
        Nat.sub_self] at isNext
      refine ⟨heard ++ rest, pending, logged, ?_, ?_⟩
      · cases rest with
        | nil => simp at isNext
        | cons first rest =>
            cases isNext
            exact ⟨rest, by simp⟩
      · rw [item.2, List.length_append, List.length_singleton, Nat.add_assoc]

end Session

end ReorgSync
