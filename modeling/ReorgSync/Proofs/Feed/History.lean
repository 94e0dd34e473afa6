import ReorgSync.Feed.Linked
import ReorgSync.Proofs.Feed

namespace ReorgSync

/-! What readers of a feed are meant to see: a history of everything that was
published, and for each reader how much of it the reader has behind it. -/

/-- What the publisher and the readers of one feed may do; readers are numbered from
zero. -/
inductive FeedStep (α : Type) where
  | publish (item : α)
  | subscribe
  | subscribeBacklog
  | tryNext (reader : Nat)
  /-- A reader that waits looks whether there is something. -/
  | poll (reader : Nat)
  /-- A reader that would wait, but is canceled. -/
  | nextCanceled (reader : Nat)
  | flush (reader : Nat)
  | lag (reader : Nat)
deriving DecidableEq, Repr

namespace FeedStep

/-- The reader that acts, if it is one that was there before. -/
def reader? : FeedStep α → Option Nat
  | tryNext reader => some reader
  | poll reader => some reader
  | nextCanceled reader => some reader
  | flush reader => some reader
  | lag reader => some reader
  | _ => none

/-- The item that is published. -/
def item? : FeedStep α → Option α
  | publish item => some item
  | _ => none

end FeedStep

inductive FeedAnswer (α : Type) where
  | published (count : Nat)
  | opened (reader : Nat)
  | tried (result : Except SyncError (Option α))
  | polled (result? : Option (Except SyncError α))
  | taken (result : Except SyncError α)
  | flushed
  | lag (count : Nat)

structure FeedHistory (α : Type) where
  /-- How far a reader may lag behind; `none` is any distance. -/
  capacity : Option Nat := none
  /-- Everything that was published, oldest first. -/
  items : List α := []
  /-- For each reader, how many items it has behind it. -/
  positions : List Nat := []

namespace FeedHistory

/-- A bounded history of at least one item, or an unbounded one. -/
def ofCapacity (capacity : Option Nat) : FeedHistory α where
  capacity := capacity.map (max · 1)

def published (history : FeedHistory α) : Nat :=
  history.items.length

def position (history : FeedHistory α) (reader : Nat) : Nat :=
  history.positions.getD reader 0

def lag (history : FeedHistory α) (position : Nat) : Nat :=
  history.published - position

/-- Where a reader starts that wants the items before it too. -/
def backlog (history : FeedHistory α) : Nat :=
  match history.capacity with
  | some capacity => history.published - min history.published capacity
  | none => history.published

/-- A reader lags too far behind to find anything. -/
def IsLost (history : FeedHistory α) (position : Nat) : Prop :=
  ∃ capacity ∈ history.capacity, capacity < history.lag position

instance (history : FeedHistory α) (position : Nat) : Decidable (history.IsLost position) :=
  inferInstanceAs (Decidable (∃ capacity ∈ history.capacity, capacity < history.lag position))

/-- A reader that is not lost finds the next item, if there is one. -/
def find (history : FeedHistory α) (position : Nat) : Feed.Found α :=
  if history.IsLost position then .lost
  else
    match history.items[position]? with
    | some item => .item item
    | none => .nothing

/-- Add a reader. -/
def add (history : FeedHistory α) (position : Nat) : FeedAnswer α × FeedHistory α :=
  (.opened history.positions.length, { history with positions := history.positions ++ [position] })

def moveTo (history : FeedHistory α) (reader position : Nat) : FeedHistory α :=
  { history with positions := history.positions.set reader position }

/-- What a reader finds; an item takes it one further. -/
def read (history : FeedHistory α) (reader : Nat) : Feed.Found α × FeedHistory α :=
  let position := history.position reader
  match history.find position with
  | .item value => (.item value, history.moveTo reader (position + 1))
  | .nothing => (.nothing, history)
  | .lost => (.lost, history)

def perform (history : FeedHistory α) : FeedStep α → FeedAnswer α × FeedHistory α
  | .publish item =>
      (.published (history.published + 1), { history with items := history.items ++ [item] })
  | .subscribe => history.add history.published
  | .subscribeBacklog => history.add history.backlog
  | .tryNext reader => (.tried (history.read reader).1.tried, (history.read reader).2)
  | .poll reader => (.polled (history.read reader).1.polled, (history.read reader).2)
  | .nextCanceled reader =>
      (.taken ((history.read reader).1.polled.getD (.error .canceled)), (history.read reader).2)
  | .flush reader => (.flushed, history.moveTo reader history.published)
  | .lag reader => (.lag (history.lag (history.position reader)), history)

/-- One step after the other, with the answers. -/
def performAll (history : FeedHistory α) : List (FeedStep α) → List (FeedAnswer α) × FeedHistory α
  | [] => ([], history)
  | step :: rest =>
      let (answer, history) := history.perform step
      let (answers, history) := history.performAll rest
      (answer :: answers, history)

/-! ## Finding -/

variable {history : FeedHistory α} {place : Nat} {item : α}

theorem find_eq_lost_iff : history.find place = .lost ↔ history.IsLost place := by
  rw [find]
  split
  case isTrue isLost => simp [isLost]
  case isFalse notLost => cases history.items[place]? <;> simp [notLost]

theorem find_eq_nothing_iff (within : place ≤ history.published) :
    history.find place = .nothing ↔ ¬ history.IsLost place ∧ place = history.published := by
  rw [find]
  split
  case isTrue isLost => simp [isLost]
  case isFalse notLost =>
    have ends : history.items[place]? = none ↔ place = history.published := by
      rw [List.getElem?_eq_none_iff, published]
      rw [published] at within
      omega
    rw [← ends]
    cases history.items[place]? <;> simp [notLost]

theorem find_eq_item_iff :
    history.find place = .item item ↔
      ¬ history.IsLost place ∧ history.items[place]? = some item := by
  rw [find]
  split
  case isTrue isLost => simp [isLost]
  case isFalse notLost => cases history.items[place]? <;> simp [notLost]

/-- What there is to find does not depend on the readers. -/
theorem find_congr {after : FeedHistory α} (sameCapacity : after.capacity = history.capacity)
    (sameItems : after.items = history.items) (place : Nat) :
    after.find place = history.find place := by
  rcases after with ⟨capacity, items, positions⟩
  subst sameCapacity sameItems
  rfl

/-! ## Positions -/

theorem moveTo_position (history : FeedHistory α) (reader : Nat) :
    history.moveTo reader (history.position reader) = history := by
  have same : history.positions.set reader (history.position reader) = history.positions := by
    rw [position, List.getD_eq_getElem?_getD]
    cases isPosition : history.positions[reader]? with
    | none => exact List.set_eq_of_length_le (List.getElem?_eq_none_iff.mp isPosition)
    | some position =>
        rcases List.getElem?_eq_some_iff.mp isPosition with ⟨within, rfl⟩
        exact List.set_getElem_self within
  rw [moveTo, same]

theorem position_eq_getElem {reader : Nat} (isReader : reader < history.positions.length) :
    history.position reader = history.positions[reader] := by
  simp [position, isReader]

theorem position_mem {reader : Nat} (isReader : reader < history.positions.length) :
    history.position reader ∈ history.positions := by
  rw [position_eq_getElem isReader]
  exact List.getElem_mem isReader

theorem read_snd (history : FeedHistory α) (reader : Nat) :
    ∃ position, (history.read reader).2 = history.moveTo reader position ∧
      (position = history.position reader ∨
        position = history.position reader + 1 ∧ history.position reader < history.published) := by
  rw [read]
  cases isFound : history.find (history.position reader) with
  | item value =>
      rcases List.getElem?_eq_some_iff.mp (find_eq_item_iff.mp isFound).2 with ⟨unread, -⟩
      exact ⟨_, rfl, .inr ⟨rfl, unread⟩⟩
  | nothing => exact ⟨_, (moveTo_position history reader).symm, .inl rfl⟩
  | lost => exact ⟨_, (moveTo_position history reader).symm, .inl rfl⟩

/-! ## What a step does -/

/-- No reader has more behind it than there is. -/
def Within (history : FeedHistory α) : Prop :=
  ∀ position ∈ history.positions, position ≤ history.published

/-- A step publishes, adds a reader or moves the one that acts. -/
theorem perform_snd (within : history.Within) (step : FeedStep α) :
    (∃ item, step.item? = some item ∧
      (history.perform step).2 = { history with items := history.items ++ [item] }) ∨
    (step.item? = none ∧ ∃ position ≤ history.published,
      (history.perform step).2 = (history.add position).2 ∨
      ∃ reader, step.reader? = some reader ∧
        (history.perform step).2 = history.moveTo reader position) := by
  have position_le : ∀ reader, history.position reader ≤ history.published := by
    intro reader
    rcases Nat.lt_or_ge reader history.positions.length with isReader | noReader
    · exact within _ (position_mem isReader)
    · simp [position, noReader]
  have reads : ∀ reader, ∃ position ≤ history.published,
      (history.read reader).2 = history.moveTo reader position := by
    intro reader
    rcases read_snd history reader with ⟨position, moves, rfl | ⟨rfl, unread⟩⟩
    · exact ⟨_, position_le reader, moves⟩
    · exact ⟨_, unread, moves⟩
  cases step with
  | publish item => exact .inl ⟨item, rfl, rfl⟩
  | subscribe => exact .inr ⟨rfl, _, Nat.le_refl _, .inl rfl⟩
  | subscribeBacklog =>
      have start : history.backlog ≤ history.published := by
        rw [backlog]
        cases history.capacity with
        | none => exact Nat.le_refl _
        | some capacity => exact Nat.sub_le _ _
      exact .inr ⟨rfl, _, start, .inl rfl⟩
  | tryNext reader =>
      rcases reads reader with ⟨position, known, moves⟩
      exact .inr ⟨rfl, position, known, .inr ⟨reader, rfl, moves⟩⟩
  | poll reader =>
      rcases reads reader with ⟨position, known, moves⟩
      exact .inr ⟨rfl, position, known, .inr ⟨reader, rfl, moves⟩⟩
  | nextCanceled reader =>
      rcases reads reader with ⟨position, known, moves⟩
      exact .inr ⟨rfl, position, known, .inr ⟨reader, rfl, moves⟩⟩
  | flush reader => exact .inr ⟨rfl, _, Nat.le_refl _, .inr ⟨reader, rfl, rfl⟩⟩
  | lag reader =>
      exact .inr ⟨rfl, _, position_le reader, .inr ⟨reader, rfl, (moveTo_position _ _).symm⟩⟩

theorem capacity_perform (within : history.Within) (step : FeedStep α) :
    (history.perform step).2.capacity = history.capacity := by
  rcases perform_snd within step with
    ⟨item, -, after⟩ | ⟨-, position, -, after | ⟨reader, -, after⟩⟩
  all_goals exact (congrArg capacity after).trans rfl

theorem items_perform (within : history.Within) (step : FeedStep α) :
    (history.perform step).2.items = history.items ++ step.item?.toList := by
  rcases perform_snd within step with
    ⟨item, isItem, after⟩ | ⟨noItem, position, -, after | ⟨reader, -, after⟩⟩
  · rw [after, isItem]
    rfl
  all_goals
    rw [after, noItem, Option.toList_none, List.append_nil]
    rfl

theorem within_perform (within : history.Within) (step : FeedStep α) :
    (history.perform step).2.Within := by
  intro position isPosition
  rcases perform_snd within step with
    ⟨item, -, after⟩ | ⟨-, start, known, after | ⟨reader, -, after⟩⟩ <;> rw [after] at isPosition ⊢
  · have old := within position isPosition
    rw [published, List.length_append]
    exact Nat.le_add_right_of_le old
  · rcases List.mem_append.mp isPosition with old | isNew
    · exact within position old
    · rw [List.mem_singleton.mp isNew]
      exact known
  · rcases List.mem_or_eq_of_mem_set isPosition with old | rfl
    · exact within position old
    · exact known

/-- Only a reader moves itself. -/
theorem positions_perform (within : history.Within) {reader : Nat}
    (isReader : reader < history.positions.length) {step : FeedStep α}
    (other : step.reader? ≠ some reader) :
    (history.perform step).2.positions[reader]? = history.positions[reader]? := by
  rcases perform_snd within step with
    ⟨item, -, after⟩ | ⟨-, start, -, after | ⟨acting, acts, after⟩⟩ <;> rw [after]
  · exact List.getElem?_append_left isReader
  · have differs : acting ≠ reader := fun same => other (same ▸ acts)
    exact List.getElem?_set_ne differs

/-- What a reader gets depends on what was published and on its own position. -/
theorem answer_congr {after : FeedHistory α} (sameCapacity : after.capacity = history.capacity)
    (sameItems : after.items = history.items) {reader : Nat}
    (position : after.position reader = history.position reader) {read : FeedStep α}
    (isRead : read.reader? = some reader) :
    (after.perform read).1 = (history.perform read).1 := by
  have found : (after.read reader).1 = (history.read reader).1 := by
    rw [FeedHistory.read, FeedHistory.read, position, find_congr sameCapacity sameItems]
    cases history.find (history.position reader) <;> rfl
  cases read with
  | publish | subscribe | subscribeBacklog => cases isRead
  | tryNext | poll | nextCanceled =>
      cases isRead
      simp only [perform, found]
  | flush => rfl
  | lag =>
      cases isRead
      simp only [perform, lag, published, sameItems, position]

/-- The others do not change what a reader gets, unless something is published. -/
theorem answer_perform (within : history.Within) {reader : Nat}
    (isReader : reader < history.positions.length) {step : FeedStep α}
    (other : step.reader? ≠ some reader) (noItem : step.item? = none) {read : FeedStep α}
    (isRead : read.reader? = some reader) :
    ((history.perform step).2.perform read).1 = (history.perform read).1 := by
  have items := items_perform within step
  rw [noItem, Option.toList_none, List.append_nil] at items
  have position : (history.perform step).2.position reader = history.position reader := by
    rw [FeedHistory.position, FeedHistory.position, List.getD_eq_getElem?_getD,
      positions_perform within isReader other, List.getD_eq_getElem?_getD]
  exact answer_congr (capacity_perform within step) items position isRead

/-! ## All steps -/

theorem within_performAll (within : history.Within) (steps : List (FeedStep α)) :
    (history.performAll steps).2.Within := by
  induction steps generalizing history with
  | nil => exact within
  | cons step rest induction => exact induction (within_perform within step)

theorem capacity_performAll (within : history.Within) (steps : List (FeedStep α)) :
    (history.performAll steps).2.capacity = history.capacity := by
  induction steps generalizing history with
  | nil => rfl
  | cons step rest induction =>
      exact (induction (within_perform within step)).trans (capacity_perform within step)

theorem items_performAll (within : history.Within) (steps : List (FeedStep α)) :
    (history.performAll steps).2.items = history.items ++ steps.filterMap FeedStep.item? := by
  induction steps generalizing history with
  | nil => simp [performAll]
  | cons step rest induction =>
      have later := induction (within_perform within step)
      rw [items_perform within step] at later
      refine later.trans ?_
      cases isItem : step.item? <;> simp [isItem]

theorem within_ofCapacity (capacity : Option Nat) : (ofCapacity capacity : FeedHistory α).Within :=
  nofun

end FeedHistory

/-! ## Feeds that keep positions -/

namespace Feed

theorem capacity_publishAll (feed : Feed α) (items : List α) :
    (feed.publishAll items).capacity = feed.capacity := by
  induction items using List.reverseRecOn with
  | nil => rfl
  | append_singleton items item induction => rw [publishAll_concat, capacity_publish, induction]

theorem capacity_ofCapacity (capacity : Option Nat) :
    (Feed.ofCapacity capacity : Feed α).capacity = capacity.map (max · 1) := by
  cases capacity <;> rfl

/-- The newest of the items that were published, as many as are kept. -/
theorem recent_publishAll (capacity : Option Nat) (items : List α) :
    ((Feed.ofCapacity capacity).publishAll items).recent =
      match capacity with
      | some capacity => items.reverse.take (max capacity 1)
      | none => items.reverse := by
  -- The newest item is the last that is published and the first that is kept.
  induction items using List.reverseRecOn with
  | nil => cases capacity <;> simp [publishAll, ofCapacity, bounded, unbounded]
  | append_singleton items item induction =>
      rw [publishAll_concat, publish, capacity_publishAll, capacity_ofCapacity, induction]
      cases capacity with
      | none => simp
      | some capacity =>
          dsimp only [Option.map_some]
          rw [List.reverse_concat]
          cases isKept : max capacity 1 with
          | zero => omega
          | succ kept => rw [List.take_succ_cons, List.take_succ_cons, List.take_take,
              Nat.min_eq_left (Nat.le_succ kept)]

/-- What a reader has not seen is kept unless it is lost. -/
theorem getElem?_recent_unread {capacity : Option Nat} {items : List α} {position : Nat}
    (unread : position < items.length)
    (kept : ∀ bound ∈ capacity.map (max · 1), items.length - position ≤ bound) :
    ((Feed.ofCapacity capacity).publishAll items).recent[items.length - position - 1]? =
      items[position]? := by
  have reversed : items.reverse[items.length - position - 1]? = items[position]? := by
    rw [List.getElem?_reverse (by omega)]
    congr 1
    omega
  rw [recent_publishAll]
  cases capacity with
  | none => exact reversed
  | some capacity =>
      have within : items.length - position ≤ max capacity 1 := kept _ rfl
      dsimp only
      rw [List.getElem?_take_of_lt (by omega), reversed]

variable {feed : Feed α} {position : Nat} {item : α}

theorem find_eq_lost {bound : Nat} (isBound : feed.capacity = some bound)
    (behind : bound < feed.lag position) : feed.find position = .lost := by
  rw [find, isBound]
  simp [behind]

theorem find_eq_nothing (seen : feed.lag position = 0) : feed.find position = .nothing := by
  rw [find, seen]
  cases feed.capacity <;> simp

theorem find_eq_item (notLost : ∀ bound ∈ feed.capacity, feed.lag position ≤ bound)
    (unread : feed.lag position ≠ 0) (isItem : feed.recent[feed.lag position - 1]? = some item) :
    feed.find position = .item item := by
  rw [find]
  cases isBound : feed.capacity with
  | none => simp [unread, isItem]
  | some bound => simp [Nat.not_lt.mpr (notLost bound isBound), unread, isItem]

/-- What a reader finds in a feed is what it finds in the history of the feed. -/
theorem find_publishAll {history : FeedHistory α} {capacity : Option Nat}
    (bound : history.capacity = capacity.map (max · 1)) {position : Nat}
    (within : position ≤ history.published) :
    ((Feed.ofCapacity capacity).publishAll history.items).find position =
      history.find position := by
  have lags : ((Feed.ofCapacity capacity).publishAll history.items).lag position =
      history.lag position := by
    rw [lag, published_publishAll]
    cases capacity <;> simp [ofCapacity, bounded, unbounded, FeedHistory.lag, FeedHistory.published]
  have limit : ((Feed.ofCapacity capacity).publishAll history.items).capacity =
      history.capacity := by
    rw [capacity_publishAll, capacity_ofCapacity, bound]
  by_cases isLost : history.IsLost position
  · rw [FeedHistory.find_eq_lost_iff.mpr isLost]
    rcases isLost with ⟨kept, isBound, behind⟩
    rw [← limit] at isBound
    rw [← lags] at behind
    exact find_eq_lost isBound behind
  · have kept : ∀ bound ∈ history.capacity, history.lag position ≤ bound :=
      fun bound isBound => Nat.not_lt.mp fun behind => isLost ⟨bound, isBound, behind⟩
    rcases Nat.eq_or_lt_of_le within with atEnd | unread
    · rw [(FeedHistory.find_eq_nothing_iff within).mpr ⟨isLost, atEnd⟩]
      apply find_eq_nothing
      rw [lags, FeedHistory.lag, atEnd, Nat.sub_self]
    · have isItem : history.items[position]? = some history.items[position] :=
        List.getElem?_eq_getElem unread
      rw [FeedHistory.find_eq_item_iff.mpr ⟨isLost, isItem⟩]
      apply find_eq_item
      · rw [limit, lags]
        exact kept
      · rw [lags]
        exact Nat.sub_ne_zero_of_lt unread
      · rw [lags, ← isItem]
        rw [bound] at kept
        exact getElem?_recent_unread unread kept

end Feed

end ReorgSync
