import ReorgSync.Proofs.Feed.History
import ReorgSync.Simulation.Readers

namespace ReorgSync

/-! A chain of cells shows its readers the history of what was published. -/

namespace LinkedFeed

variable {feed : LinkedFeed α} {items : List α} {address place : Nat} {item : α} {capacity : Nat}

/-! ## What becomes of cells -/

@[simp] theorem size_append (feed : LinkedFeed α) (item : α) :
    (feed.append item).cells.size = feed.cells.size + 1 := by
  simp [append, link]

theorem getElem?_append (feed : LinkedFeed α) (item : α) (address : Nat) :
    (feed.append item).cells[address]? =
      if address = feed.cells.size then some { number := feed.published + 1, item := some item }
      else (feed.cells[address]?).map fun cell =>
        if address = feed.tail then { cell with next := some feed.cells.size } else cell := by
  rw [append, Array.getElem?_push, link]
  simp only [Array.size_modify, Array.getElem?_modify]
  split
  · rfl
  · by_cases isTail : feed.tail = address
    · rw [if_pos isTail]
      simp [isTail.symm]
    · rw [if_neg isTail]
      simp [Ne.symm isTail]

theorem number_append (feed : LinkedFeed α) (item : α) (address : Nat) :
    (feed.append item).number address =
      if address = feed.cells.size then feed.published + 1 else feed.number address := by
  rw [number, number, getElem?_append]
  split
  · rfl
  · cases feed.cells[address]? with
    | none => rfl
    | some cell =>
        dsimp only [Option.map_some, Option.getD_some]
        split <;> rfl

theorem item?_append (feed : LinkedFeed α) (item : α) (address : Nat) :
    (feed.append item).item? address =
      if address = feed.cells.size then some item else feed.item? address := by
  rw [item?, item?, getElem?_append]
  split
  · rfl
  · cases feed.cells[address]? with
    | none => rfl
    | some cell =>
        dsimp only [Option.map_some, Option.bind_some]
        split <;> rfl

theorem next?_append (within : feed.tail < feed.cells.size) (item : α) (address : Nat) :
    (feed.append item).next? address =
      if address = feed.tail then some feed.cells.size else feed.next? address := by
  rw [next?, next?, getElem?_append]
  by_cases isNew : address = feed.cells.size
  · have notTail : address ≠ feed.tail := by omega
    have noCell : feed.cells[address]? = none := Array.getElem?_eq_none (by omega)
    rw [if_pos isNew, if_neg notTail, noCell]
    rfl
  · rw [if_neg isNew]
    by_cases isTail : address = feed.tail
    · subst isTail
      rw [Array.getElem?_eq_getElem within]
      simp
    · simp [isTail]

theorem getElem?_cutAll (cells : Array (Cell α)) (addresses : List Nat) (address : Nat) :
    (addresses.foldl cut cells)[address]? = (cells[address]?).map fun cell =>
      if address ∈ addresses then { cell with next := none } else cell := by
  induction addresses generalizing cells with
  | nil => simp
  | cons first rest induction =>
      rw [List.foldl_cons, induction, cut, Array.getElem?_modify]
      cases cells[address]? with
      | none => simp
      | some cell =>
          by_cases isFirst : first = address
          · simp [isFirst]
          · simp [isFirst, Ne.symm isFirst]

@[simp] theorem size_letGo (feed : LinkedFeed α) (addresses : List Nat) :
    (feed.letGo addresses).cells.size = feed.cells.size := by
  rw [letGo]
  dsimp only
  generalize feed.cells = cells
  induction addresses generalizing cells with
  | nil => rfl
  | cons first rest induction => rw [List.foldl_cons, induction, cut, Array.size_modify]

@[simp] theorem number_letGo (feed : LinkedFeed α) (addresses : List Nat) (address : Nat) :
    (feed.letGo addresses).number address = feed.number address := by
  rw [number, number, letGo, getElem?_cutAll]
  cases feed.cells[address]? with
  | none => rfl
  | some cell =>
      dsimp only [Option.map_some, Option.getD_some]
      split <;> rfl

@[simp] theorem item?_letGo (feed : LinkedFeed α) (addresses : List Nat) (address : Nat) :
    (feed.letGo addresses).item? address = feed.item? address := by
  rw [item?, item?, letGo, getElem?_cutAll]
  cases feed.cells[address]? with
  | none => rfl
  | some cell =>
      dsimp only [Option.map_some, Option.bind_some]
      split <;> rfl

theorem next?_letGo (feed : LinkedFeed α) (addresses : List Nat) (address : Nat) :
    (feed.letGo addresses).next? address =
      if address ∈ addresses then none else feed.next? address := by
  rw [next?, next?, letGo, getElem?_cutAll]
  cases feed.cells[address]? with
  | none => simp
  | some cell =>
      dsimp only [Option.map_some, Option.bind_some]
      split <;> rfl

/-! ## Chains

Every link goes to the cell of the next item. Only two kinds of cells have no link:
the newest one, and cells from which no reader can go on. -/

/-- A reader behind so many items has lost its place. -/
def Loses (feed : LinkedFeed α) (number : Nat) : Prop :=
  feed.capacity.isSome ∧ number + 1 < feed.oldest

structure IsChain (feed : LinkedFeed α) (items : List α) : Prop where
  published : feed.published = items.length
  tail_lt : feed.tail < feed.cells.size
  number_zero : feed.number 0 = 0
  number_le : ∀ address, feed.number address ≤ items.length
  next : ∀ address next, feed.next? address = some next → next < feed.cells.size ∧
    feed.number next = feed.number address + 1 ∧
      feed.item? next = items[feed.number address]?
  ends : ∀ address < feed.cells.size, feed.next? address = none →
    address = feed.tail ∨ feed.Loses (feed.number address)

/-- A new cell is behind the newest one, and all other links stay. -/
theorem IsChain.next_append (chain : feed.IsChain items) (item : α) {address next : Nat}
    (isNext : (feed.append item).next? address = some next) :
    next < (feed.append item).cells.size ∧
      (feed.append item).number next = (feed.append item).number address + 1 ∧
        (feed.append item).item? next = (items ++ [item])[(feed.append item).number address]? := by
  have sized := size_append feed item
  have numbered := number_append feed item
  rw [next?_append chain.tail_lt] at isNext
  split at isNext
  case isTrue isTail =>
    cases isNext
    have notNew : address ≠ feed.cells.size := by
      have := chain.tail_lt
      omega
    have last : feed.number address = items.length := by
      rw [isTail]
      exact chain.published
    refine ⟨by omega, ?_, ?_⟩
    · rw [numbered, numbered, if_pos rfl, if_neg notNew, last, chain.published]
    · rw [item?_append, if_pos rfl, numbered, if_neg notNew, last, List.getElem?_concat_length]
  case isFalse notTail =>
    rcases chain.next address next isNext with ⟨within, follows, found⟩
    have notNew : address ≠ feed.cells.size := by
      rintro rfl
      simp [next?] at isNext
    have before : feed.number address < items.length := by
      have := chain.number_le next
      omega
    refine ⟨by omega, ?_, ?_⟩
    · rw [numbered, numbered, if_neg (by omega), if_neg notNew, follows]
    · rw [item?_append, if_neg (by omega), numbered, if_neg notNew, found,
        List.getElem?_append_left before]

theorem IsChain.append (chain : feed.IsChain items) (item : α) :
    (feed.append item).IsChain (items ++ [item]) := by
  have sized := size_append feed item
  have numbered := number_append feed item
  have published : (feed.append item).published = items.length + 1 := by
    change (feed.append item).number feed.cells.size = _
    rw [numbered, if_pos rfl, chain.published]
  refine ⟨?_, ?_, ?_, ?_, fun address next isNext => chain.next_append item isNext, ?_⟩
  · rw [published, List.length_append, List.length_singleton]
  · change feed.cells.size < _
    omega
  · have := chain.tail_lt
    rw [numbered, if_neg (by omega), chain.number_zero]
  · intro address
    rw [numbered, List.length_append, List.length_singleton]
    have := chain.number_le address
    have := chain.published
    split <;> omega
  · intro address within isEnd
    rw [next?_append chain.tail_lt] at isEnd
    split at isEnd
    · contradiction
    case isFalse notTail =>
      by_cases isNew : address = feed.cells.size
      · exact .inl isNew
      · have old : address < feed.cells.size := by omega
        have loses := (chain.ends address old isEnd).resolve_left notTail
        right
        rw [numbered, if_neg isNew]
        exact loses

/-- Cells may be cut off from which no reader can go on. -/
theorem IsChain.letGo (chain : feed.IsChain items) {addresses : List Nat}
    (lost : ∀ address ∈ addresses, feed.Loses (feed.number address)) :
    (feed.letGo addresses).IsChain items where
  published := (number_letGo feed addresses feed.tail).trans chain.published
  tail_lt := by
    rw [size_letGo]
    exact chain.tail_lt
  number_zero := (number_letGo feed addresses 0).trans chain.number_zero
  number_le address := by
    rw [number_letGo]
    exact chain.number_le address
  next address next isNext := by
    rw [next?_letGo] at isNext
    split at isNext
    · contradiction
    · rw [size_letGo, number_letGo, number_letGo, item?_letGo]
      exact chain.next address next isNext
  ends address within isEnd := by
    rw [size_letGo] at within
    rw [next?_letGo] at isEnd
    rw [number_letGo]
    split at isEnd
    case isTrue isCut => exact .inr (lost address isCut)
    case isFalse notCut => exact chain.ends address within isEnd

/-- Who has lost its place does not find it again when more is let go. -/
theorem IsChain.forget (chain : feed.IsChain items) {kept : List Nat} {oldest : Nat}
    (later : feed.oldest ≤ oldest) : { feed with kept, oldest }.IsChain items where
  published := chain.published
  tail_lt := chain.tail_lt
  number_zero := chain.number_zero
  number_le := chain.number_le
  next := chain.next
  ends address within isEnd :=
    (chain.ends address within isEnd).imp_right fun loses =>
      ⟨loses.1, Nat.lt_of_lt_of_le loses.2 later⟩

/-! ## What a bounded feed keeps -/

structure Keeps (feed : LinkedFeed α) (items : List α) (capacity : Nat) : Prop where
  length_kept : feed.kept.length = min items.length (capacity + 1)
  number_kept : ∀ index address, feed.kept[index]? = some address →
    address < feed.cells.size ∧ feed.number address + feed.kept.length = items.length + 1 + index ∧
      feed.item? address = items[feed.number address - 1]?
  oldest : feed.oldest =
    if items.length = 0 then 0 else items.length + 1 - min items.length capacity

/-- Readers lose their place when more is unread than a bounded feed keeps. -/
theorem Keeps.lt_oldest_iff (keeps : feed.Keeps items capacity) {number : Nat}
    (within : number ≤ items.length) :
    number + 1 < feed.oldest ↔ capacity < items.length - number := by
  rw [keeps.oldest]
  split <;> omega

/-- While a cell for a new item is there, the same cells are kept at first. -/
theorem Keeps.append (keeps : feed.Keeps items capacity) (item : α) :
    (feed.append item).Keeps items capacity where
  length_kept := keeps.length_kept
  number_kept index address isKept := by
    rcases keeps.number_kept index address isKept with ⟨within, numbered, isItem⟩
    refine ⟨by rw [size_append]; omega, ?_⟩
    rw [number_append, item?_append, if_neg (by omega), if_neg (by omega)]
    exact ⟨numbered, isItem⟩
  oldest := keeps.oldest

/-- The newest cell stands behind those that are kept. -/
theorem Keeps.number_extended (keeps : feed.Keeps items capacity)
    (chain : feed.IsChain (items ++ [item])) (newest : feed.item? feed.tail = some item)
    (index address : Nat) (isKept : (feed.kept ++ [feed.tail])[index]? = some address) :
    address < feed.cells.size ∧
      feed.number address + feed.kept.length = items.length + 1 + index ∧
        feed.item? address = (items ++ [item])[feed.number address - 1]? := by
  have length_kept := keeps.length_kept
  rcases Nat.lt_or_ge index feed.kept.length with old | isLast
  · rw [List.getElem?_append_left old] at isKept
    rcases keeps.number_kept index address isKept with ⟨within, numbered, isItem⟩
    refine ⟨within, numbered, ?_⟩
    rw [isItem, List.getElem?_append_left (by omega)]
  · rw [List.getElem?_append_right isLast, List.getElem?_singleton] at isKept
    split at isKept
    case isFalse => contradiction
    case isTrue isEnd =>
      cases isKept
      have numbered : feed.number feed.tail = items.length + 1 := by
        have published := chain.published
        rw [List.length_append, List.length_singleton] at published
        exact published
      refine ⟨chain.tail_lt, by omega, ?_⟩
      rw [newest, numbered, Nat.add_sub_cancel, List.getElem?_concat_length]

theorem keep_eq {cells : List Nat} {first : Nat} (bounded : feed.capacity = some capacity)
    (isExtended : feed.kept ++ [feed.tail] = cells)
    (isFirst : cells[cells.length - capacity]? = some first) :
    feed.keep capacity =
      ({ feed with
          kept := cells.drop (cells.length - (capacity + 1))
          oldest := feed.number first } : LinkedFeed α).letGo
        (cells.take (cells.length - (capacity + 1))) := by
  have isOldest : { feed with kept := cells }.first? = some first := by
    rw [first?, bounded]
    exact isFirst
  simp only [LinkedFeed.keep, isExtended, isOldest, Option.map_some, Option.getD_some]
  rfl

/-- The newest cell is kept too, and room is made for it. -/
theorem Keeps.keep (chain : feed.IsChain (items ++ [item]))
    (newest : feed.item? feed.tail = some item) (positive : 0 < capacity)
    (bounded : feed.capacity = some capacity) (keeps : feed.Keeps items capacity) :
    (feed.keep capacity).IsChain (items ++ [item]) ∧
      (feed.keep capacity).Keeps (items ++ [item]) capacity := by
  have length_kept := keeps.length_kept
  have length_items : (items ++ [item]).length = items.length + 1 := by
    rw [List.length_append, List.length_singleton]
  have extended := keeps.number_extended chain newest
  -- Of the longer list only its length and what stands in it matters from here on.
  generalize isExtended : feed.kept ++ [feed.tail] = cells at extended
  have length_cells : cells.length = feed.kept.length + 1 := by
    rw [← isExtended, List.length_append, List.length_singleton]
  obtain ⟨first, isFirst⟩ : ∃ first, cells[cells.length - capacity]? = some first :=
    ⟨_, List.getElem?_eq_getElem (by omega)⟩
  have number_first := (extended _ first isFirst).2.1
  have oldest : feed.number first = items.length + 2 - min (items.length + 1) capacity := by
    omega
  rw [keep_eq bounded isExtended isFirst]
  constructor
  · apply IsChain.letGo
    · apply chain.forget
      rw [keeps.oldest, oldest]
      split <;> omega
    · intro address isCut
      rcases List.mem_iff_getElem?.mp isCut with ⟨index, isAt⟩
      rw [List.getElem?_take] at isAt
      split at isAt
      case isFalse => contradiction
      case isTrue inFront =>
        have numbered := (extended index address isAt).2.1
        refine ⟨by rw [bounded]; rfl, ?_⟩
        change feed.number address + 1 < feed.number first
        omega
  · have length_drop : (cells.drop (cells.length - (capacity + 1))).length =
        min (items.length + 1) (capacity + 1) := by
      rw [List.length_drop]
      omega
    refine ⟨by rw [length_items]; exact length_drop, ?_, ?_⟩
    · intro index address isAt
      have isIn : cells[cells.length - (capacity + 1) + index]? = some address := by
        rw [← List.getElem?_drop]
        exact isAt
      rcases extended _ address isIn with ⟨within, numbered, isItem⟩
      rw [size_letGo, number_letGo, item?_letGo]
      refine ⟨within, ?_, isItem⟩
      change feed.number address + (cells.drop (cells.length - (capacity + 1))).length = _
      omega
    · change feed.number first = _
      rw [length_items, if_neg (Nat.succ_ne_zero _), oldest]

/-! ## What readers are shown -/

/-- The cells, and what is kept of them, are those of a history. -/
structure Shows (feed : LinkedFeed α) (history : FeedHistory α) : Prop where
  chain : feed.IsChain history.items
  capacity : feed.capacity = history.capacity
  keeps : ∀ capacity, history.capacity = some capacity →
    0 < capacity ∧ feed.Keeps history.items capacity

variable {history : FeedHistory α}

theorem shows_ofCapacity (capacity : Option Nat) :
    (ofCapacity capacity : LinkedFeed α).Shows (.ofCapacity capacity) := by
  refine ⟨⟨rfl, Nat.zero_lt_one, rfl, ?_, ?_, ?_⟩, rfl, ?_⟩
  · intro address
    cases address <;> exact Nat.le_refl 0
  · intro address next isNext
    cases address <;> cases isNext
  · intro address within _
    exact .inl (Nat.lt_one_iff.mp within)
  · intro kept isKept
    obtain ⟨limit, rfl, rfl⟩ := Option.map_eq_some_iff.mp isKept
    refine ⟨by omega, by simp [ofCapacity, FeedHistory.ofCapacity], ?_, rfl⟩
    intro index address isAt
    cases isAt

/-- Publishing adds an item to the history. -/
theorem Shows.publish (shown : feed.Shows history) (item : α) :
    (feed.publish item).Shows { history with items := history.items ++ [item] } := by
  have chain := shown.chain.append item
  have capacity : (feed.append item).capacity = history.capacity := shown.capacity
  have newest : (feed.append item).item? (feed.append item).tail = some item := by
    rw [item?_append]
    exact if_pos rfl
  rw [LinkedFeed.publish]
  split
  case h_1 kept isBounded =>
    rcases shown.keeps kept (capacity.symm.trans isBounded) with ⟨positive, keeps⟩
    have both := (keeps.append item).keep chain newest positive isBounded
    refine ⟨both.1, capacity, ?_⟩
    intro limit isLimit
    have same : limit = kept := Option.some.inj (isLimit.symm.trans (capacity.symm.trans isBounded))
    rw [same]
    exact ⟨positive, both.2⟩
  case h_2 isUnbounded =>
    refine ⟨chain, capacity, ?_⟩
    intro limit isLimit
    have isNone : history.capacity = none := capacity.symm.trans isUnbounded
    rw [isNone] at isLimit
    cases isLimit

/-- Publishing moves no reader. -/
theorem number_publish (held : place < feed.cells.size) (item : α) :
    place < (feed.publish item).cells.size ∧
      (feed.publish item).number place = feed.number place := by
  have sized := size_append feed item
  have numbered : (feed.append item).number place = feed.number place := by
    rw [number_append, if_neg (Nat.ne_of_lt held)]
  rw [publish]
  split
  · constructor
    · rw [keep, size_letGo]
      change place < (feed.append item).cells.size
      omega
    · rw [keep, number_letGo]
      exact numbered
  · exact ⟨by omega, numbered⟩

theorem Shows.loses_iff (shown : feed.Shows history) (place : Nat) :
    feed.Loses (feed.number place) ↔ history.IsLost (feed.number place) := by
  have within := shown.chain.number_le place
  rw [Loses, FeedHistory.IsLost, shown.capacity]
  cases isBounded : history.capacity with
  | none => simp
  | some capacity =>
      have keeps := (shown.keeps capacity isBounded).2
      simp [keeps.lt_oldest_iff within, FeedHistory.lag, FeedHistory.published]

/-- A reader finds what is behind its position in the history, and an item takes it to
the cell of that item. -/
theorem Shows.find (shown : feed.Shows history) (held : place < feed.cells.size) :
    (feed.find place).1 = history.find (feed.number place) ∧
      (feed.find place).2 < feed.cells.size ∧
      feed.number (feed.find place).2 =
        match history.find (feed.number place) with
        | .item _ => feed.number place + 1
        | .nothing => feed.number place
        | .lost => feed.number place := by
  by_cases loses : feed.Loses (feed.number place)
  · have isLost := FeedHistory.find_eq_lost_iff.mpr ((shown.loses_iff place).mp loses)
    have found : feed.find place = (.lost, place) := if_pos loses
    rw [found, isLost]
    exact ⟨rfl, held, rfl⟩
  · have notLost := mt (shown.loses_iff place).mpr loses
    rw [Loses] at loses
    cases isNext : feed.next? place with
    | none =>
        -- A link that was cut would have made the reader lose its place, so nothing was cut.
        have isTail := (shown.chain.ends place held isNext).resolve_right loses
        have atEnd : feed.number place = history.published := by
          rw [isTail]
          exact shown.chain.published
        have nothing : history.find (feed.number place) = .nothing :=
          (FeedHistory.find_eq_nothing_iff (Nat.le_of_eq atEnd)).mpr ⟨notLost, atEnd⟩
        have found : feed.find place = (.nothing, place) := by
          rw [LinkedFeed.find, if_neg loses, isNext]
        rw [found, nothing]
        exact ⟨rfl, held, rfl⟩
    | some next =>
        rcases shown.chain.next place next isNext with ⟨within, follows, isItem⟩
        have before : feed.number place < history.items.length := by
          have := shown.chain.number_le next
          omega
        rw [List.getElem?_eq_getElem before] at isItem
        have item : history.find (feed.number place) = .item history.items[feed.number place] :=
          FeedHistory.find_eq_item_iff.mpr ⟨notLost, List.getElem?_eq_getElem before⟩
        have found : feed.find place = (.item history.items[feed.number place], next) := by
          rw [LinkedFeed.find, if_neg loses, isNext]
          simp only [isItem]
        rw [found, item]
        exact ⟨rfl, within, follows⟩

/-! ### Backlogs -/

theorem number_front (feed : LinkedFeed α) (number next address : Nat) :
    (feed.front number next).number address =
      if address = feed.cells.size then number else feed.number address := by
  rw [LinkedFeed.number, LinkedFeed.number, front, Array.getElem?_push]
  split <;> rfl

theorem item?_front (feed : LinkedFeed α) (number next address : Nat) :
    (feed.front number next).item? address = feed.item? address := by
  rw [item?, item?, front, Array.getElem?_push]
  split
  case isTrue isNew => simp [isNew]
  case isFalse => rfl

theorem next?_front (feed : LinkedFeed α) (number next address : Nat) :
    (feed.front number next).next? address =
      if address = feed.cells.size then some next else feed.next? address := by
  rw [next?, next?, front, Array.getElem?_push]
  split <;> rfl

theorem size_front (feed : LinkedFeed α) (number next : Nat) :
    (feed.front number next).cells.size = feed.cells.size + 1 :=
  Array.size_push _

theorem IsChain.front (chain : feed.IsChain items) {number next : Nat}
    (within : next < feed.cells.size) (numbered : feed.number next = number + 1)
    (isItem : feed.item? next = items[number]?) : (feed.front number next).IsChain items := by
  have tail_lt := chain.tail_lt
  have sized := size_front feed number next
  refine ⟨?_, ?_, ?_, ?_, ?_, ?_⟩
  · change (feed.front number next).number feed.tail = _
    rw [number_front, if_neg (Nat.ne_of_lt tail_lt)]
    exact chain.published
  · change feed.tail < _
    omega
  · rw [number_front, if_neg (by omega), chain.number_zero]
  · intro address
    have := chain.number_le next
    have := chain.number_le address
    rw [number_front]
    split <;> omega
  · intro address behind isNext
    rw [next?_front] at isNext
    rw [number_front feed number next address, item?_front]
    split at isNext
    case isTrue isFront =>
      cases isNext
      rw [number_front, if_neg (Nat.ne_of_lt within), if_pos isFront]
      exact ⟨by omega, numbered, isItem⟩
    case isFalse notFront =>
      rcases chain.next address behind isNext with ⟨held, follows, found⟩
      rw [number_front, if_neg (Nat.ne_of_lt held), if_neg notFront]
      exact ⟨by omega, follows, found⟩
  · intro address held isEnd
    rw [next?_front] at isEnd
    split at isEnd
    case isTrue => contradiction
    case isFalse notFront =>
      rw [number_front, if_neg notFront]
      exact chain.ends address (by omega) isEnd

theorem Keeps.front (keeps : feed.Keeps items capacity) (number next : Nat) :
    (feed.front number next).Keeps items capacity where
  length_kept := keeps.length_kept
  number_kept index address isKept := by
    rcases keeps.number_kept index address isKept with ⟨held, rest⟩
    have sized := size_front feed number next
    rw [number_front, item?_front, if_neg (Nat.ne_of_lt held)]
    exact ⟨by omega, rest⟩
  oldest := keeps.oldest

/-- A cell may be put in front of one that holds the next item. -/
theorem Shows.front (shown : feed.Shows history) {number next : Nat}
    (within : next < feed.cells.size) (numbered : feed.number next = number + 1)
    (isItem : feed.item? next = history.items[number]?) :
    (feed.front number next).Shows history where
  chain := shown.chain.front within numbered isItem
  capacity := shown.capacity
  keeps capacity isBounded :=
    (shown.keeps capacity isBounded).imp_right fun keeps => keeps.front number next

theorem Shows.backlog_eq_published (shown : feed.Shows history) (noFirst : feed.first? = none) :
    history.backlog = history.published := by
  rw [first?, shown.capacity] at noFirst
  rw [FeedHistory.backlog]
  cases isBounded : history.capacity with
  | none => rfl
  | some capacity =>
      rcases shown.keeps capacity isBounded with ⟨positive, keeps⟩
      rw [isBounded, Option.bind_some, List.getElem?_eq_none_iff] at noFirst
      have length_kept := keeps.length_kept
      dsimp only
      rw [FeedHistory.published]
      omega

/-- The first of the kept items is the one behind the backlog's position. -/
theorem Shows.number_first (shown : feed.Shows history) {first : Nat}
    (isFirst : feed.first? = some first) :
    first < feed.cells.size ∧ feed.number first = history.backlog + 1 ∧
      feed.item? first = history.items[history.backlog]? := by
  rw [first?, shown.capacity] at isFirst
  rcases Option.bind_eq_some_iff.mp isFirst with ⟨capacity, isBounded, isKept⟩
  rcases shown.keeps capacity isBounded with ⟨positive, keeps⟩
  rcases keeps.number_kept _ first isKept with ⟨within, numbered, isItem⟩
  have length_kept := keeps.length_kept
  have inside := (List.getElem?_eq_some_iff.mp isKept).1
  have number_first : feed.number first = history.backlog + 1 := by
    rw [FeedHistory.backlog, isBounded]
    dsimp only
    rw [FeedHistory.published]
    omega
  refine ⟨within, number_first, ?_⟩
  rw [isItem, number_first, Nat.add_sub_cancel]

/-- Whoever wants the backlog starts in front of what is kept; nobody else notices. -/
theorem Shows.backlog (shown : feed.Shows history) :
    feed.backlog.2.Shows history ∧ feed.backlog.1 < feed.backlog.2.cells.size ∧
      feed.backlog.2.number feed.backlog.1 = history.backlog ∧
      feed.cells.size ≤ feed.backlog.2.cells.size ∧
      ∀ place < feed.cells.size, feed.backlog.2.number place = feed.number place := by
  cases isFirst : feed.first? with
  | none =>
      have isBacklog : feed.backlog = (feed.tail, feed) := by
        rw [LinkedFeed.backlog, isFirst]
      rw [isBacklog, shown.backlog_eq_published isFirst]
      exact ⟨shown, shown.chain.tail_lt, shown.chain.published, Nat.le_refl _, fun _ _ => rfl⟩
  | some first =>
      have isBacklog : feed.backlog =
          (feed.cells.size, feed.front (feed.number first - 1) first) := by
        rw [LinkedFeed.backlog, isFirst]
      rcases shown.number_first isFirst with ⟨within, numbered, isItem⟩
      rw [isBacklog, numbered, Nat.add_sub_cancel]
      refine ⟨shown.front within numbered isItem, ?_, ?_, ?_, ?_⟩
      · rw [size_front]
        exact Nat.lt_succ_self _
      · exact (number_front ..).trans (if_pos rfl)
      · rw [size_front]
        exact Nat.le_succ _
      · intro place held
        rw [number_front, if_neg (Nat.ne_of_lt held)]

end LinkedFeed

end ReorgSync
