import ReorgSync.Proofs.Feed.Linked

namespace ReorgSync

/-! Readers of a chain of cells answer as readers of the history do, whatever they and
the publisher do. -/

namespace Simulation.Readers

/-! ## Steps -/

def perform (group : Readers α) : FeedStep α → FeedAnswer α × Readers α
  | .publish item => (.published (group.publish item).feed.published, group.publish item)
  | .subscribe => (.opened group.subscribe.1, group.subscribe.2)
  | .subscribeBacklog => (.opened group.subscribeBacklog.1, group.subscribeBacklog.2)
  | .tryNext reader => (.tried (group.tryNext reader).1, (group.tryNext reader).2)
  | .poll reader => (.polled (group.poll reader).1, (group.poll reader).2)
  | .nextCanceled reader => (.taken (group.nextCanceled reader).1, (group.nextCanceled reader).2)
  | .flush reader => (.flushed, group.flush reader)
  | .lag reader => (.lag (group.lag reader), group)

/-- One step after the other, with the answers. -/
def performAll (group : Readers α) : List (FeedStep α) → List (FeedAnswer α) × Readers α
  | [] => ([], group)
  | step :: rest =>
      let (answer, group) := group.perform step
      let (answers, group) := group.performAll rest
      (answer :: answers, group)

/-- For each reader, the number of the cell that it holds on to. -/
def positions (group : Readers α) : List Nat :=
  group.members.map fun member => group.feed.number member.place

/-! ## A group and its history -/

structure Shows (group : Readers α) (history : FeedHistory α) : Prop where
  feed : group.feed.Shows history
  held : ∀ member ∈ group.members, member.place < group.feed.cells.size
  positions : group.positions = history.positions

variable {group : Readers α} {history : FeedHistory α}

theorem Shows.place_held (shown : group.Shows history) (reader : Nat) :
    group.place reader < group.feed.cells.size := by
  rw [place]
  cases isMember : group.members[reader]? with
  | none => exact Nat.lt_of_le_of_lt (Nat.zero_le _) shown.feed.chain.tail_lt
  | some member => exact shown.held member (List.mem_of_getElem? isMember)

theorem Shows.number_place (shown : group.Shows history) (reader : Nat) :
    group.feed.number (group.place reader) = history.position reader := by
  rw [FeedHistory.position, ← shown.positions, Readers.positions, place, List.getD_eq_getElem?_getD,
    List.getElem?_map]
  cases group.members[reader]? with
  | none => exact shown.feed.chain.number_zero
  | some member => rfl

/-- A reader goes on from another cell. -/
theorem Shows.setReader (shown : group.Shows history) (reader : Nat) {place : Nat}
    (held : place < group.feed.cells.size) :
    (group.setReader reader (.reading place)).Shows
      (history.moveTo reader (group.feed.number place)) where
  feed := ⟨shown.feed.chain, shown.feed.capacity, shown.feed.keeps⟩
  held member isMember := by
    rcases List.mem_or_eq_of_mem_set isMember with old | rfl
    · exact shown.held member old
    · exact held
  positions := by
    change List.map _ (group.members.set reader _) = history.positions.set reader _
    rw [List.map_set, ← shown.positions]
    rfl

/-- A new reader starts at a cell. -/
theorem Shows.add (shown : group.Shows history) {place : Nat}
    (held : place < group.feed.cells.size) :
    (group.add place).1 = history.positions.length ∧
      (group.add place).2.Shows (history.add (group.feed.number place)).2 := by
  have count : group.members.length = history.positions.length := by
    rw [← shown.positions, Readers.positions, List.length_map]
  refine ⟨count, ⟨⟨shown.feed.chain, shown.feed.capacity, shown.feed.keeps⟩, ?_, ?_⟩⟩
  · intro member isMember
    rcases List.mem_append.mp isMember with old | isNew
    · exact shown.held member old
    · rw [List.mem_singleton.mp isNew]
      exact held
  · change List.map _ (group.members ++ [_]) = history.positions ++ [_]
    rw [List.map_append, ← shown.positions]
    rfl

/-- Cells may come in addition, as long as the readers find theirs as they were. -/
theorem Shows.withFeed (shown : group.Shows history) {feed : LinkedFeed α} {meant : FeedHistory α}
    (shownFeed : feed.Shows meant) (same : meant.positions = history.positions)
    (unchanged : ∀ place < group.feed.cells.size,
      place < feed.cells.size ∧ feed.number place = group.feed.number place) :
    { group with feed }.Shows meant where
  feed := shownFeed
  held member isMember := (unchanged _ (shown.held member isMember)).1
  positions := by
    rw [same, ← shown.positions]
    apply List.map_congr_left
    exact fun member isMember => (unchanged _ (shown.held member isMember)).2

/-- What a reader finds moves it as in the history. -/
theorem Shows.read (shown : group.Shows history) (reader : Nat) :
    (group.feed.find (group.place reader)).1 = (history.read reader).1 ∧
      (group.setReader reader (.reading (group.feed.find (group.place reader)).2)).Shows
        (history.read reader).2 := by
  rcases shown.feed.find (shown.place_held reader) with ⟨found, held, moved⟩
  have moves := shown.setReader reader held
  rw [shown.number_place] at found moved
  rw [moved] at moves
  rw [found, FeedHistory.read]
  cases isFound : history.find (history.position reader) with
  | item value =>
      rw [isFound] at moves
      exact ⟨rfl, moves⟩
  | nothing =>
      rw [isFound, FeedHistory.moveTo_position] at moves
      exact ⟨rfl, moves⟩
  | lost =>
      rw [isFound, FeedHistory.moveTo_position] at moves
      exact ⟨rfl, moves⟩

/-- What one step answers, and what it leaves behind. -/
theorem Shows.perform (shown : group.Shows history) (step : FeedStep α) :
    (group.perform step).1 = (history.perform step).1 ∧
      (group.perform step).2.Shows (history.perform step).2 := by
  cases step with
  | publish item =>
      have published := shown.feed.publish item
      have count : (group.feed.publish item).published = history.published + 1 := by
        rw [published.chain.published, List.length_append, List.length_singleton]
        rfl
      refine ⟨congrArg FeedAnswer.published count, ?_⟩
      exact shown.withFeed published rfl fun place held => LinkedFeed.number_publish held item
  | subscribe =>
      have opened := shown.add shown.feed.chain.tail_lt
      have atEnd : group.feed.number group.feed.tail = history.published :=
        shown.feed.chain.published
      rw [atEnd] at opened
      exact ⟨congrArg FeedAnswer.opened opened.1, opened.2⟩
  | subscribeBacklog =>
      rcases shown.feed.backlog with ⟨backlog, held, numbered, more, unchanged⟩
      have opened := (shown.withFeed backlog rfl fun place held =>
        ⟨Nat.lt_of_lt_of_le held more, unchanged place held⟩).add held
      rw [numbered] at opened
      exact ⟨congrArg FeedAnswer.opened opened.1, opened.2⟩
  | tryNext reader =>
      have read := shown.read reader
      exact ⟨congrArg (fun found : Feed.Found α => FeedAnswer.tried found.tried) read.1, read.2⟩
  | poll reader =>
      have read := shown.read reader
      exact ⟨congrArg (fun found : Feed.Found α => FeedAnswer.polled found.polled) read.1, read.2⟩
  | nextCanceled reader =>
      have read := shown.read reader
      let taken (found : Feed.Found α) := FeedAnswer.taken (found.polled.getD (.error .canceled))
      exact ⟨congrArg taken read.1, read.2⟩
  | flush reader =>
      have atEnd : group.feed.number group.feed.tail = history.published :=
        shown.feed.chain.published
      have moves := shown.setReader reader shown.feed.chain.tail_lt
      rw [atEnd] at moves
      exact ⟨rfl, moves⟩
  | lag reader =>
      have unread : group.lag reader = history.lag (history.position reader) := by
        rw [lag, LinkedFeed.lag, shown.number_place, shown.feed.chain.published]
        rfl
      exact ⟨congrArg FeedAnswer.lag unread, shown⟩

/-- The same for any number of steps. -/
theorem Shows.performAll (shown : group.Shows history) (steps : List (FeedStep α)) :
    (group.performAll steps).1 = (history.performAll steps).1 ∧
      (group.performAll steps).2.Shows (history.performAll steps).2 := by
  induction steps generalizing group history with
  | nil => exact ⟨rfl, shown⟩
  | cons step rest induction =>
      rcases shown.perform step with ⟨answer, after⟩
      rcases induction after with ⟨answers, later⟩
      exact ⟨congrArg₂ List.cons answer answers, later⟩

theorem shows_ofCapacity (capacity : Option Nat) :
    (Readers.ofCapacity capacity : Readers α).Shows (.ofCapacity capacity) where
  feed := LinkedFeed.shows_ofCapacity capacity
  held := nofun
  positions := rfl

/-! ## All at once -/

/-- Whatever is published and whoever reads, all answers are those of a history in which
each reader has its position, and it alone moves it. -/
theorem readers_follow_history (capacity : Option Nat) (steps : List (FeedStep α)) :
    let group := (Readers.ofCapacity capacity).performAll steps
    let history := (FeedHistory.ofCapacity capacity).performAll steps
    group.1 = history.1 ∧
    group.2.positions = history.2.positions ∧
    history.2.items = steps.filterMap FeedStep.item? ∧
    (∀ reader < history.2.positions.length,
      let position := history.2.position reader
      let isLost := ∃ bound ∈ capacity, max bound 1 < history.2.published - position
      position ≤ history.2.published ∧
      (history.2.find position = .lost ↔ isLost) ∧
      (history.2.find position = .nothing ↔ ¬ isLost ∧ history.2.published = position) ∧
      (∀ item, history.2.find position = .item item ↔
        ¬ isLost ∧ history.2.items[position]? = some item) ∧
      ∀ step : FeedStep α, step.reader? ≠ some reader →
        (group.2.perform step).2.positions[reader]? = group.2.positions[reader]? ∧
        (step.item? = none → ∀ read : FeedStep α, read.reader? = some reader →
          ((group.2.perform step).2.perform read).1 = (group.2.perform read).1)) ∧
    ∀ position ≤ history.2.published,
      ((Feed.ofCapacity capacity).publishAll history.2.items).find position =
        history.2.find position := by
  intro group history
  have same := (shows_ofCapacity (α := α) capacity).performAll steps
  have start : (FeedHistory.ofCapacity capacity : FeedHistory α).Within :=
    FeedHistory.within_ofCapacity capacity
  have bounded : history.2.Within := FeedHistory.within_performAll start steps
  have limit : history.2.capacity = capacity.map (max · 1) :=
    FeedHistory.capacity_performAll start steps
  have isLost_iff : ∀ position, history.2.IsLost position ↔
      ∃ bound ∈ capacity, max bound 1 < history.2.published - position := by
    intro position
    rw [FeedHistory.IsLost, limit]
    cases capacity <;> simp [FeedHistory.lag]
  refine ⟨same.1, same.2.positions, ?_, ?_, ?_⟩
  · exact FeedHistory.items_performAll start steps
  · intro reader isReader position isLost
    have within : position ≤ history.2.published := bounded _ (FeedHistory.position_mem isReader)
    refine ⟨within, ?_, ?_, ?_, ?_⟩
    · rw [FeedHistory.find_eq_lost_iff, isLost_iff]
    · rw [FeedHistory.find_eq_nothing_iff within, isLost_iff, eq_comm (a := position)]
    · intro item
      rw [FeedHistory.find_eq_item_iff, isLost_iff]
    · intro step other
      have after := same.2.perform step
      constructor
      · rw [after.2.positions, same.2.positions]
        exact FeedHistory.positions_perform bounded isReader other
      · intro notPublished read isRead
        rw [(after.2.perform read).1, (same.2.perform read).1]
        exact FeedHistory.answer_perform bounded isReader other notPublished isRead
  · intro position within
    exact Feed.find_publishAll limit within

end Simulation.Readers

end ReorgSync
