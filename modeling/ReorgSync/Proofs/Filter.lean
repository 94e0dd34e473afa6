import Mathlib.Algebra.Order.BigOperators.Group.List
import Mathlib.Data.List.Sort
import Mathlib.Data.String.Basic
import ReorgSync.Filter

namespace ReorgSync.Filter

/-! The normal form of a filter says which logs the filter selects, no more and no less:
two filters select the same logs exactly if they have one normal form. -/

/-! ## Folded texts -/

theorem toLower_toLower (char : Char) : char.toLower.toLower = char.toLower := by
  unfold Char.toLower
  split
  case isTrue isUpper =>
    have notUpper : ¬ char.val + ('a'.val - 'A'.val) ≤ 'Z'.val := by
      grind [UInt32.toNat_add, UInt32.le_iff_toNat_le]
    exact dif_neg fun again => notUpper again.2
  case isFalse notUpper => rfl

theorem foldCase_foldCase (text : String) :
    Text.foldCase (Text.foldCase text) = Text.foldCase text := by
  have twice : Char.toLower ∘ Char.toLower = Char.toLower := funext toLower_toLower
  rw [Text.foldCase, Text.foldCase, String.toList_ofList, List.map_map, twice]

theorem length_foldCase (text : String) : (Text.foldCase text).length = text.length := by
  rw [Text.foldCase, String.length_ofList, List.length_map, String.length_toList]

theorem accepts_eq_true_iff {accepted : List String} {value : String} :
    accepts accepted value = true ↔ Text.foldCase value ∈ accepted.map Text.foldCase := by
  simp [accepts, Text.sameFolded]

/-! ## Values in normal form -/

theorem mem_insertValue {value other : String} {values : List String} :
    other ∈ insertValue value values ↔ other = value ∨ other ∈ values := by
  induction values with
  | nil => simp [insertValue]
  | cons head rest induction =>
      rw [insertValue]
      split
      case isTrue => rw [List.mem_cons]
      case isFalse =>
        split
        case isTrue isHead => simp [isHead]
        case isFalse => simp only [List.mem_cons, induction]; tauto

theorem pairwise_insertValue (value : String) {values : List String}
    (ascending : values.Pairwise (· < ·)) : (insertValue value values).Pairwise (· < ·) := by
  induction values with
  | nil => exact List.pairwise_singleton _ _
  | cons head rest induction =>
      rcases List.pairwise_cons.mp ascending with ⟨first, others⟩
      rw [insertValue]
      split
      case isTrue below =>
        refine List.pairwise_cons.mpr ⟨fun other isOther => ?_, ascending⟩
        rcases List.mem_cons.mp isOther with rfl | later
        · exact below
        · exact lt_trans below (first other later)
      case isFalse notBelow =>
        split
        case isTrue => exact ascending
        case isFalse differs =>
          have above : head < value := lt_of_le_of_ne (not_lt.mp notBelow) (Ne.symm differs)
          refine List.pairwise_cons.mpr ⟨fun other isOther => ?_, induction others⟩
          rcases mem_insertValue.mp isOther with rfl | later
          · exact above
          · exact first other later

theorem mem_normalValues {values : List String} {value : String} :
    value ∈ normalValues values ↔ value ∈ values.map Text.foldCase := by
  have inserted (folded : List String) : value ∈ folded.foldr insertValue [] ↔ value ∈ folded := by
    induction folded with
    | nil => rfl
    | cons head rest induction => rw [List.foldr_cons, mem_insertValue, induction, List.mem_cons]
  exact inserted _

theorem pairwise_normalValues (values : List String) : (normalValues values).Pairwise (· < ·) := by
  have inserted (folded : List String) : (folded.foldr insertValue []).Pairwise (· < ·) := by
    induction folded with
    | nil => exact List.Pairwise.nil
    | cons head rest induction => exact pairwise_insertValue head induction
  exact inserted _

theorem isEmpty_normalValues (values : List String) :
    (normalValues values).isEmpty = values.isEmpty := by
  cases values with
  | nil => rfl
  | cons head rest =>
      have isMember : Text.foldCase head ∈ normalValues (head :: rest) :=
        mem_normalValues.mpr (by simp)
      cases isEmpty : normalValues (head :: rest) with
      | nil => simp [isEmpty] at isMember
      | cons => rfl

theorem accepts_normalValues (values : List String) (value : String) :
    accepts (normalValues values) value = accepts values value := by
  have folded (other : String) : other ∈ (normalValues values).map Text.foldCase ↔
      other ∈ values.map Text.foldCase := by
    constructor
    · intro isMember
      rcases List.mem_map.mp isMember with ⟨held, isHeld, rfl⟩
      rcases List.mem_map.mp (mem_normalValues.mp isHeld) with ⟨given, isGiven, rfl⟩
      rw [foldCase_foldCase]
      exact List.mem_map_of_mem isGiven
    · intro isMember
      rcases List.mem_map.mp isMember with ⟨given, isGiven, rfl⟩
      refine List.mem_map.mpr ⟨Text.foldCase given, mem_normalValues.mpr isMember, ?_⟩
      exact foldCase_foldCase given
  rw [Bool.eq_iff_iff, accepts_eq_true_iff, accepts_eq_true_iff, folded]

/-- Values that accept the same have one normal form. -/
theorem normalValues_eq_of_accepts {left right : List String}
    (same : ∀ value, accepts left value = accepts right value) :
    normalValues left = normalValues right := by
  refine (pairwise_normalValues left).eq_of_mem_iff (pairwise_normalValues right) fun value => ?_
  have included {listed others : List String}
      (accepted : ∀ value, accepts listed value = accepts others value)
      (isMember : value ∈ normalValues listed) : value ∈ normalValues others := by
    rcases List.mem_map.mp (mem_normalValues.mp isMember) with ⟨given, isGiven, rfl⟩
    have isAccepted := accepts_eq_true_iff.mpr (List.mem_map_of_mem (f := Text.foldCase) isGiven)
    rw [accepted given] at isAccepted
    exact mem_normalValues.mpr (accepts_eq_true_iff.mp isAccepted)
  exact ⟨included same, included fun value => (same value).symm⟩

/-! ## Values at one place -/

/-- No values listed admit every value. -/
def admits (values : List String) (value : String) : Bool :=
  values.isEmpty || accepts values value

/-- Any values that are listed leave something out. -/
theorem exists_not_accepted (values : List String) : ∃ value, accepts values value = false := by
  have bound (other : String) (isMember : other ∈ values) :
      other.length ≤ (values.map String.length).sum :=
    List.le_sum_of_mem (List.mem_map_of_mem isMember)
  refine ⟨String.ofList (List.replicate ((values.map String.length).sum + 1) 'x'), ?_⟩
  rw [Bool.eq_false_iff, Ne, accepts_eq_true_iff]
  intro isAccepted
  rcases List.mem_map.mp isAccepted with ⟨other, isMember, same⟩
  have lengths := congrArg String.length same
  rw [length_foldCase, length_foldCase, String.length_ofList, List.length_replicate] at lengths
  have short := bound other isMember
  omega

theorem exists_admitted (values : List String) : ∃ value, admits values value = true := by
  cases values with
  | nil => exact ⟨"", rfl⟩
  | cons head rest =>
      refine ⟨head, ?_⟩
      simp [admits, accepts, Text.sameFolded]

theorem admits_normalValues (values : List String) (value : String) :
    admits (normalValues values) value = admits values value := by
  rw [admits, admits, isEmpty_normalValues, accepts_normalValues]

theorem isEmpty_of_admits {left right : List String}
    (same : ∀ value, admits left value = admits right value) (isEmpty : left.isEmpty = true) :
    right.isEmpty = true := by
  rcases exists_not_accepted right with ⟨value, notAccepted⟩
  have admitted := same value
  rw [admits, admits, isEmpty, notAccepted] at admitted
  simpa using admitted.symm

/-- Values that admit the same have one normal form. -/
theorem normalValues_eq_of_admits {left right : List String}
    (same : ∀ value, admits left value = admits right value) :
    normalValues left = normalValues right := by
  have empty : left.isEmpty = right.isEmpty := by
    rw [Bool.eq_iff_iff]
    exact ⟨isEmpty_of_admits same, isEmpty_of_admits fun value => (same value).symm⟩
  apply normalValues_eq_of_accepts
  intro value
  cases isEmpty : left.isEmpty with
  | true =>
      have rightEmpty := empty.symm.trans isEmpty
      rw [List.isEmpty_iff.mp isEmpty, List.isEmpty_iff.mp rightEmpty]
  | false =>
      have admitted := same value
      rwa [admits, admits, ← empty, isEmpty, Bool.false_or, Bool.false_or] at admitted

/-! ## Topics -/

theorem topicsMatch_nil (topics : List String) : topicsMatch [] topics = true := by
  rw [topicsMatch]

/-- With no topics left, only positions that admit any value match. -/
theorem topicsMatch_no_topics (accepted : List (List String)) :
    topicsMatch accepted [] = accepted.all List.isEmpty := by
  induction accepted with
  | nil => rfl
  | cons values rest induction => simp [topicsMatch, induction]

theorem topicsMatch_cons (values : List String) (rest : List (List String)) (topic : String)
    (topics : List String) :
    topicsMatch (values :: rest) (topic :: topics) =
      (admits values topic && topicsMatch rest topics) :=
  rfl

/-- The normal form of topic positions. -/
def normalTopics (topics : List (List String)) : List (List String) :=
  dropTrailingEmpty (topics.map normalValues)

theorem normalTopics_nil : normalTopics [] = [] :=
  rfl

theorem normalTopics_cons (values : List String) (rest : List (List String)) :
    normalTopics (values :: rest) =
      if normalTopics rest = [] ∧ values.isEmpty = true then []
      else normalValues values :: normalTopics rest := by
  rw [normalTopics, normalTopics, dropTrailingEmpty, dropTrailingEmpty, List.map_cons,
    List.reverse_cons, List.dropWhile_append]
  cases left : (rest.map normalValues).reverse.dropWhile List.isEmpty with
  | nil =>
      cases isEmpty : values.isEmpty with
      | true => simp [isEmpty_normalValues, isEmpty]
      | false => simp [isEmpty_normalValues, isEmpty]
  | cons => simp

/-- Positions without a normal form admit anything. -/
theorem normalTopics_eq_nil_iff {topics : List (List String)} :
    normalTopics topics = [] ↔ topics.all List.isEmpty = true := by
  induction topics with
  | nil => simp [normalTopics_nil]
  | cons values rest induction =>
      rw [normalTopics_cons, List.all_cons, Bool.and_eq_true, ← induction]
      split
      case isTrue ends => simp [ends]
      case isFalse goesOn =>
        simp only [reduceCtorEq, false_iff]
        exact fun ends => goesOn ends.symm

theorem topicsMatch_of_all_isEmpty {accepted : List (List String)}
    (allEmpty : accepted.all List.isEmpty = true) (topics : List String) :
    topicsMatch accepted topics = true := by
  induction accepted generalizing topics with
  | nil => exact topicsMatch_nil topics
  | cons values rest induction =>
      rw [List.all_cons, Bool.and_eq_true] at allEmpty
      rw [topicsMatch, allEmpty.1, induction allEmpty.2, Bool.true_or, Bool.true_and]

theorem topicsMatch_normalTopics (accepted : List (List String)) (topics : List String) :
    topicsMatch (normalTopics accepted) topics = topicsMatch accepted topics := by
  induction accepted generalizing topics with
  | nil => rfl
  | cons values rest induction =>
      rw [normalTopics_cons]
      split
      case isTrue ends =>
        have allEmpty : (values :: rest).all List.isEmpty = true := by
          rw [List.all_cons, ends.2, normalTopics_eq_nil_iff.mp ends.1]
          rfl
        rw [topicsMatch_nil, topicsMatch_of_all_isEmpty allEmpty]
      case isFalse =>
        have accepted (topic : String) := accepts_normalValues values topic
        rw [topicsMatch, topicsMatch, induction, isEmpty_normalValues]
        cases topics.head? with
        | none => rfl
        | some topic => simp [accepts_normalValues]

theorem exists_topicsMatch (accepted : List (List String)) :
    ∃ topics, topicsMatch accepted topics = true := by
  induction accepted with
  | nil => exact ⟨[], topicsMatch_nil []⟩
  | cons values rest induction =>
      rcases exists_admitted values with ⟨topic, admitted⟩
      rcases induction with ⟨topics, selected⟩
      refine ⟨topic :: topics, ?_⟩
      rw [topicsMatch_cons, admitted, selected]
      rfl

/-! ## Two conditions at once -/

/-- Where two conditions do not depend on each other and can be met together, both are
known from when they are met together. -/
theorem eq_of_and_eq (first first' : α → Bool) (second second' : β → Bool)
    (firstMet : ∃ a, first a = true) (secondMet : ∃ b, second b = true)
    (same : ∀ a b, (first a && second b) = (first' a && second' b)) :
    (∀ a, first a = first' a) ∧ ∀ b, second b = second' b := by
  rcases firstMet with ⟨a, isFirst⟩
  rcases secondMet with ⟨b, isSecond⟩
  have both := same a b
  rw [isFirst, isSecond, Bool.and_self, eq_comm, Bool.and_eq_true] at both
  constructor
  · intro other
    have condition := same other b
    rwa [isSecond, both.2, Bool.and_true, Bool.and_true] at condition
  · intro other
    have condition := same a other
    rwa [isFirst, both.1, Bool.true_and, Bool.true_and] at condition

/-- Topic positions that match the same have one normal form. -/
theorem normalTopics_eq_of_topicsMatch {left right : List (List String)}
    (same : ∀ topics, topicsMatch left topics = topicsMatch right topics) :
    normalTopics left = normalTopics right := by
  induction left generalizing right with
  | nil =>
      have admitsAll := (same []).symm
      rw [topicsMatch_nil, topicsMatch_no_topics] at admitsAll
      rw [normalTopics_nil, normalTopics_eq_nil_iff.mpr admitsAll]
  | cons values rest induction =>
      cases right with
      | nil =>
          have admitsAll := same []
          rw [topicsMatch_nil, topicsMatch_no_topics] at admitsAll
          rw [normalTopics_nil, normalTopics_eq_nil_iff.mpr admitsAll]
      | cons otherValues otherRest =>
          have conditions := eq_of_and_eq (admits values) (admits otherValues)
            (topicsMatch rest) (topicsMatch otherRest) (exists_admitted values)
            (exists_topicsMatch rest) fun topic topics => same (topic :: topics)
          have head := normalValues_eq_of_admits conditions.1
          have empty : values.isEmpty = otherValues.isEmpty := by
            rw [← isEmpty_normalValues, head, isEmpty_normalValues]
          rw [normalTopics_cons, normalTopics_cons, induction conditions.2, head, empty]

/-! ## Filters -/

theorem matchesLog_eq (filter : Filter) (log : Log) :
    filter.matchesLog log = (admits filter.addresses log.address &&
      topicsMatch filter.topics log.topics) :=
  rfl

theorem normalized_eq (filter : Filter) :
    filter.normalized = ⟨normalValues filter.addresses, normalTopics filter.topics⟩ :=
  rfl

/-- A filter selects what its normal form selects. -/
theorem matchesLog_normalized (filter : Filter) (log : Log) :
    filter.normalized.matchesLog log = filter.matchesLog log := by
  rw [matchesLog_eq, matchesLog_eq, normalized_eq, admits_normalValues, topicsMatch_normalTopics]

/-- Filters that select the same logs have one normal form, and only they. -/
theorem normalized_eq_iff {left right : Filter} :
    left.normalized = right.normalized ↔ ∀ log, left.matchesLog log = right.matchesLog log := by
  constructor
  · intro same log
    rw [← matchesLog_normalized left, same, matchesLog_normalized]
  · intro same
    have conditions := eq_of_and_eq (admits left.addresses) (admits right.addresses)
      (topicsMatch left.topics) (topicsMatch right.topics) (exists_admitted left.addresses)
      (exists_topicsMatch left.topics) fun address topics =>
        same { address, topics, data := "", blockNumber := 0, blockHash := "",
               transactionHash := "", transactionIndex := 0 }
    rw [normalized_eq, normalized_eq, normalValues_eq_of_admits conditions.1,
      normalTopics_eq_of_topicsMatch conditions.2]

end ReorgSync.Filter
