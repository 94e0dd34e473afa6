import ReorgSync.Proofs.Json.Lexical

namespace ReorgSync.Json

/-! A value that is written is read back as it was, as long as its numbers are whole and
fit a word, and it is nested no deeper than what is read. So no two such values have
one text. -/

/-- Values of so many levels of arrays and objects, with whole numbers in the range of
words. -/
def FitsIn : (levels : Nat) → Json → Prop
  | _, .null => True
  | _, .bool _ => True
  | _, .integer value => Word.lowest 64 ≤ value ∧ value < Word.size 64
  | _, .real _ => False
  | _, .string _ => True
  | 0, .array _ => False
  | 0, .object _ => False
  | levels + 1, .array items => ∀ item ∈ items, FitsIn levels item
  | levels + 1, .object fields => ∀ field ∈ fields, FitsIn levels field.2

/-! ## Values and drafts -/

mutual

theorem ofJson_injective {left right : Json} (same : Draft.ofJson left = Draft.ofJson right) :
    left = right := by
  cases left <;> cases right <;> simp only [Draft.ofJson, reduceCtorEq, Draft.bool.injEq,
    Draft.integer.injEq, Draft.real.injEq, Draft.string.injEq, Draft.array.injEq,
    Draft.object.injEq, and_true] at same
  case null.null => rfl
  case array.array => rw [ofItems_injective same]
  case object.object => rw [ofFields_injective same]
  all_goals rw [same]

theorem ofItems_injective {left right : List Json}
    (same : Draft.ofItems left = Draft.ofItems right) : left = right := by
  cases left <;> cases right <;> simp only [Draft.ofItems, reduceCtorEq, List.cons.injEq] at same
  case nil.nil => rfl
  case cons.cons => rw [ofJson_injective same.1, ofItems_injective same.2]

theorem ofFields_injective {left right : List (String × Json)}
    (same : Draft.ofFields left = Draft.ofFields right) : left = right := by
  rcases left with - | ⟨⟨leftName, leftValue⟩, left⟩ <;>
    rcases right with - | ⟨⟨rightName, rightValue⟩, right⟩ <;>
      simp only [Draft.ofFields, reduceCtorEq, List.cons.injEq, Prod.mk.injEq,
        Option.some.injEq] at same
  case nil.nil => rfl
  case cons.cons =>
    rw [same.1.1, ofJson_injective same.1.2, ofFields_injective same.2]

end

/-! ## Texts -/

/-- What may stand behind a value. -/
def Ends (rest : List Char) : Prop :=
  ∀ char ∈ rest.head?, char = ',' ∨ char = ']' ∨ char = '\x7d'

theorem Ends.endsNumber {rest : List Char} (ends : Ends rest) : Lexical.EndsNumber rest := by
  intro char isFirst
  rcases ends char isFirst with rfl | rfl | rfl <;> decide

theorem skipBlanks_cons {char : Char} (notBlank : Lexical.isBlank char = false)
    (text : List Char) : Lexical.skipBlanks (char :: text) = char :: text :=
  List.dropWhile_cons_of_neg (by simp [notBlank])

namespace Draft

open Lexical

/-- A value that is read from its text inside `depth` others, whatever follows it. -/
def ReadsBack (depth : Nat) (value : Json) : Prop :=
  ∀ fuel rest, 2 * value.print.toList.length ≤ fuel → Ends rest →
    readValue fuel depth (value.print.toList ++ rest) = (.ofJson value, some rest)

/-! ### Words, strings and numbers -/

theorem toList_quoteString (text : String) (rest : List Char) :
    (quoteString text).toList ++ rest =
      '\"' :: (text.toList.flatMap escapeChar ++ '\"' :: rest) := by
  simp [quoteString]

theorem readValue_quoteString (fuel depth : Nat) (text : String) (rest : List Char) :
    readValue (fuel + 1) depth ((quoteString text).toList ++ rest) = (.string text, some rest) := by
  rw [toList_quoteString, readValue, skipBlanks_cons rfl]
  simp only [string?_escaped]

theorem readName_quoteString (name : String) (rest : List Char) :
    readName ((quoteString name).toList ++ ':' :: rest) = some (some name, some rest) := by
  rw [toList_quoteString, readName]
  rw [skipBlanks_cons rfl]
  simp only [string?_escaped]
  rfl

theorem notBlank_of_number {char : Char} (isFirst : char = '-' ∨ char.isDigit = true) :
    isBlank char = false := by
  rcases isFirst with rfl | isDigit
  · rfl
  · simp only [isBlank, Bool.or_eq_false_iff, beq_eq_false_iff_ne]
    refine ⟨⟨⟨?_, ?_⟩, ?_⟩, ?_⟩ <;> rintro rfl <;> cases isDigit

theorem readValue_number {char : Char} (isFirst : char = '-' ∨ char.isDigit = true)
    {others rest : List Char} {draft : Draft}
    (isNumber : number? (char :: others) = some (draft, rest)) (fuel depth : Nat) :
    readValue (fuel + 1) depth (char :: others) = (draft, some rest) := by
  rw [readValue, skipBlanks_cons (notBlank_of_number isFirst)]
  split
  case h_7 => rw [isNumber]
  all_goals
    rename_i same
    cases same
    rcases isFirst with isFirst | isFirst <;> cases isFirst

/-! ### First characters -/

theorem toList_array (items : List Json) :
    (Json.array items).print.toList = '[' :: ((printItems items).toList ++ [']']) := by
  change ("[" ++ printItems items ++ "]").toList = _
  simp

theorem toList_object (fields : List (String × Json)) :
    (Json.object fields).print.toList = '\x7b' :: ((printFields fields).toList ++ ['\x7d']) := by
  change ("\x7b" ++ printFields fields ++ "\x7d").toList = _
  simp

/-- How a value starts: not with a blank, and not with the end of an array. -/
theorem print_first {levels : Nat} {value : Json} (fits : FitsIn levels value) :
    ∃ char others, value.print.toList = char :: others ∧ isBlank char = false ∧ char ≠ ']' := by
  cases value with
  | null => exact ⟨'n', _, rfl, rfl, by decide⟩
  | bool value =>
      cases value with
      | true => exact ⟨'t', _, rfl, rfl, by decide⟩
      | false => exact ⟨'f', _, rfl, rfl, by decide⟩
  | integer value =>
      rcases toString_first value with ⟨char, others, isText, isFirst⟩
      refine ⟨char, others, isText, notBlank_of_number isFirst, ?_⟩
      rintro rfl
      rcases isFirst with isFirst | isFirst <;> cases isFirst
  | real value => cases levels <;> cases fits
  | string value =>
      have text := toList_quoteString value []
      rw [List.append_nil] at text
      exact ⟨'\"', _, text, rfl, by decide⟩
  | array items => exact ⟨'[', _, toList_array items, rfl, by decide⟩
  | object fields => exact ⟨'\x7b', _, toList_object fields, rfl, by decide⟩

theorem readsBack_scalar {value : Json} (fits : FitsIn 0 value) (depth : Nat) :
    ReadsBack depth value := by
  intro fuel rest enough ends
  rcases print_first fits with ⟨char, others, isText, -, -⟩
  cases fuel with
  | zero =>
      rw [isText] at enough
      cases enough
  | succ fuel =>
      cases value with
      | null => rfl
      | bool value => cases value <;> rfl
      | integer value =>
          rcases toString_first value with ⟨char, others, isText, isFirst⟩
          have isNumber := number?_toString fits.1 fits.2 ends.endsNumber
          have text : (Json.integer value).print = toString value := rfl
          rw [isText] at isNumber
          rw [text, isText]
          exact readValue_number isFirst isNumber fuel depth
      | string text => exact readValue_quoteString fuel depth text rest
      | real | array | object => cases fits

/-! ### Arrays -/

theorem readItems_last {fuel depth : Nat} {text rest : List Char} {item : Draft}
    (read : readValue fuel depth text = (item, some (']' :: rest))) :
    readItems (fuel + 1) depth text = ([item], some rest) := by
  rw [readItems, read]
  rfl

theorem readItems_more {fuel depth : Nat} {text others : List Char} {item : Draft}
    {items : List Draft} {rest : Option (List Char)}
    (read : readValue fuel depth text = (item, some (',' :: others)))
    (later : readItems fuel depth others = (items, rest)) :
    readItems (fuel + 1) depth text = (item :: items, rest) := by
  have step : readItems (fuel + 1) depth text =
      (item :: (readItems fuel depth others).1, (readItems fuel depth others).2) := by
    rw [readItems, read]
    rfl
  rw [step, later]

theorem toList_printItems_cons (item next : Json) (others : List Json) (rest : List Char) :
    (printItems (item :: next :: others)).toList ++ rest =
      item.print.toList ++ ',' :: ((printItems (next :: others)).toList ++ rest) := by
  have text : printItems (item :: next :: others) =
      item.print ++ "," ++ printItems (next :: others) := rfl
  simp [text]

theorem readItems_print {depth : Nat} {item : Json} {others : List Json}
    (readBack : ∀ value ∈ item :: others, ReadsBack depth value) {fuel : Nat}
    (enough : 2 * (printItems (item :: others)).toList.length + 1 ≤ fuel) (rest : List Char) :
    readItems fuel depth ((printItems (item :: others)).toList ++ ']' :: rest) =
      (ofItems (item :: others), some rest) := by
  -- A step from item to item takes one unit of fuel; the comma between them pays for it.
  induction others generalizing item fuel with
  | nil =>
      cases fuel with
      | zero => cases enough
      | succ fuel =>
          have read := readBack item List.mem_cons_self fuel (']' :: rest)
            (Nat.le_of_succ_le_succ enough) (by simp [Ends])
          exact readItems_last read
  | cons next others induction =>
      have size := congrArg List.length (toList_printItems_cons item next others [])
      simp only [List.append_nil, List.length_append, List.length_cons] at size
      cases fuel with
      | zero => cases enough
      | succ fuel =>
          have read := readBack item List.mem_cons_self fuel
            (',' :: ((printItems (next :: others)).toList ++ ']' :: rest)) (by omega)
            (by simp [Ends])
          have enoughLater : 2 * (printItems (next :: others)).toList.length + 1 ≤ fuel := by omega
          have later := induction
            (fun value isValue => readBack value (List.mem_cons_of_mem _ isValue)) enoughLater
          rw [toList_printItems_cons]
          exact readItems_more read later

theorem finish_shallow {depth : Nat} (shallow : depth < maxDepth) (draft : Draft)
    (rest : Option (List Char)) : finish depth draft rest = (draft, rest) := by
  rw [finish, if_neg (Nat.not_le.mpr shallow)]

theorem readValue_array {fuel depth : Nat} (shallow : depth < maxDepth) {char : Char}
    (notBlank : isBlank char = false) (notEnd : char ≠ ']') {others rest : List Char}
    {items : List Draft} (read : readItems fuel (depth + 1) (char :: others) = (items, some rest)) :
    readValue (fuel + 1) depth ('[' :: char :: others) = (.array items true, some rest) := by
  have opened : skipBlanks ('[' :: char :: others) = '[' :: char :: others := rfl
  rw [readValue, opened]
  split
  case h_1 same =>
    cases same
    rw [skipBlanks_cons notBlank]
    split
    case h_1 found =>
      split at found
      case h_1 isEnd =>
        cases isEnd
        exact absurd rfl notEnd
      case h_2 =>
        rw [read] at found
        cases found
        exact finish_shallow shallow _ _
  case h_7 noArray _ _ _ _ _ => exact absurd rfl (noArray _)
  all_goals
    rename_i same
    cases same

theorem readsBack_array {levels depth : Nat} {items : List Json} (shallow : depth < maxDepth)
    (fits : ∀ item ∈ items, FitsIn levels item)
    (readBack : ∀ item ∈ items, ReadsBack (depth + 1) item) : ReadsBack depth (.array items) := by
  intro fuel rest enough _
  rw [toList_array] at enough ⊢
  simp only [List.length_cons, List.length_append, List.length_nil] at enough
  cases fuel with
  | zero => cases enough
  | succ fuel =>
      cases items with
      | nil => exact finish_shallow shallow _ _
      | cons item others =>
          rcases print_first (fits item List.mem_cons_self) with
            ⟨char, tail, isFirst, notBlank, notEnd⟩
          have enoughInside : 2 * (printItems (item :: others)).toList.length + 1 ≤ fuel := by
            omega
          have read := readItems_print readBack enoughInside rest
          have starts : ∃ tail,
              (printItems (item :: others)).toList ++ ']' :: rest = char :: tail := by
            cases others with
            | nil => exact ⟨tail ++ ']' :: rest, congrArg (· ++ ']' :: rest) isFirst⟩
            | cons next others =>
                rw [toList_printItems_cons, isFirst]
                exact ⟨_, rfl⟩
          rcases starts with ⟨tail, starts⟩
          rw [List.cons_append, List.append_assoc, List.singleton_append, starts]
          rw [starts] at read
          exact readValue_array shallow notBlank notEnd read

/-! ### Objects -/

theorem readFields_last {fuel depth : Nat} {text held rest : List Char} {name : String}
    {value : Draft} (named : readName text = some (some name, some held))
    (read : readValue fuel depth held = (value, some ('\x7d' :: rest))) :
    readFields (fuel + 1) depth text = ([(some name, value)], some rest) := by
  rw [readFields, named]
  dsimp only
  rw [read]
  rfl

theorem readFields_more {fuel depth : Nat} {text held others : List Char} {name : String}
    {value : Draft} {fields : List (Option String × Draft)} {rest : Option (List Char)}
    (named : readName text = some (some name, some held))
    (read : readValue fuel depth held = (value, some (',' :: others)))
    (later : readFields fuel depth others = (fields, rest)) :
    readFields (fuel + 1) depth text = ((some name, value) :: fields, rest) := by
  have step : readFields (fuel + 1) depth text =
      ((some name, value) :: (readFields fuel depth others).1,
        (readFields fuel depth others).2) := by
    rw [readFields, named]
    dsimp only
    rw [read]
    rfl
  rw [step, later]

theorem toList_printFields_singleton (name : String) (value : Json) (rest : List Char) :
    (printFields [(name, value)]).toList ++ rest =
      (quoteString name).toList ++ ':' :: (value.print.toList ++ rest) := by
  have text : printFields [(name, value)] = quoteString name ++ ":" ++ value.print := rfl
  simp [text]

theorem toList_printFields_cons (name : String) (value : Json) (next : String × Json)
    (others : List (String × Json)) (rest : List Char) :
    (printFields ((name, value) :: next :: others)).toList ++ rest =
      (quoteString name).toList ++
        ':' :: (value.print.toList ++ ',' :: ((printFields (next :: others)).toList ++ rest)) := by
  have text : printFields ((name, value) :: next :: others) =
      quoteString name ++ ":" ++ value.print ++ "," ++ printFields (next :: others) := rfl
  simp [text]

theorem readFields_print {depth : Nat} {field : String × Json} {others : List (String × Json)}
    (readBack : ∀ entry ∈ field :: others, ReadsBack depth entry.2) {fuel : Nat}
    (enough : 2 * (printFields (field :: others)).toList.length + 1 ≤ fuel) (rest : List Char) :
    readFields fuel depth ((printFields (field :: others)).toList ++ '\x7d' :: rest) =
      (ofFields (field :: others), some rest) := by
  induction others generalizing field fuel with
  | nil =>
      rcases field with ⟨name, value⟩
      have size := congrArg List.length (toList_printFields_singleton name value [])
      simp only [List.append_nil, List.length_append, List.length_cons] at size
      cases fuel with
      | zero => cases enough
      | succ fuel =>
          have read := readBack _ List.mem_cons_self fuel ('\x7d' :: rest)
            (by dsimp only; omega) (by simp [Ends])
          rw [toList_printFields_singleton]
          exact readFields_last (readName_quoteString name _) read
  | cons next others induction =>
      rcases field with ⟨name, value⟩
      have size := congrArg List.length (toList_printFields_cons name value next others [])
      simp only [List.append_nil, List.length_append, List.length_cons] at size
      cases fuel with
      | zero => cases enough
      | succ fuel =>
          have read := readBack _ List.mem_cons_self fuel
            (',' :: ((printFields (next :: others)).toList ++ '\x7d' :: rest))
            (by dsimp only; omega) (by simp [Ends])
          have enoughLater : 2 * (printFields (next :: others)).toList.length + 1 ≤ fuel := by
            omega
          have later := induction
            (fun entry isEntry => readBack entry (List.mem_cons_of_mem _ isEntry)) enoughLater
          rw [toList_printFields_cons]
          exact readFields_more (readName_quoteString name _) read later

/-- Fields start with the name of the first one. -/
theorem printFields_first (field : String × Json) (others : List (String × Json))
    (rest : List Char) :
    ∃ tail, (printFields (field :: others)).toList ++ rest = '\"' :: tail := by
  rcases field with ⟨name, value⟩
  cases others with
  | nil =>
      rw [toList_printFields_singleton, toList_quoteString]
      exact ⟨_, rfl⟩
  | cons next others =>
      rw [toList_printFields_cons, toList_quoteString]
      exact ⟨_, rfl⟩

theorem readValue_object {fuel depth : Nat} (shallow : depth < maxDepth) {others rest : List Char}
    {fields : List (Option String × Draft)}
    (read : readFields fuel (depth + 1) ('\"' :: others) = (fields, some rest)) :
    readValue (fuel + 1) depth ('\x7b' :: '\"' :: others) = (.object fields true, some rest) := by
  have inside : readValue (fuel + 1) depth ('\x7b' :: '\"' :: others) =
      finish depth (.object (readFields fuel (depth + 1) ('\"' :: others)).1
        (readFields fuel (depth + 1) ('\"' :: others)).2.isSome)
        (readFields fuel (depth + 1) ('\"' :: others)).2 := rfl
  rw [inside, read, finish_shallow shallow]
  rfl

theorem readsBack_object {depth : Nat} {fields : List (String × Json)} (shallow : depth < maxDepth)
    (readBack : ∀ field ∈ fields, ReadsBack (depth + 1) field.2) :
    ReadsBack depth (.object fields) := by
  intro fuel rest enough _
  rw [toList_object] at enough ⊢
  simp only [List.length_cons, List.length_append, List.length_nil] at enough
  cases fuel with
  | zero => cases enough
  | succ fuel =>
      cases fields with
      | nil => exact finish_shallow shallow _ _
      | cons field others =>
          have enoughInside : 2 * (printFields (field :: others)).toList.length + 1 ≤ fuel := by
            omega
          have read := readFields_print readBack enoughInside rest
          rcases printFields_first field others ('\x7d' :: rest) with ⟨tail, starts⟩
          rw [List.cons_append, List.append_assoc, List.singleton_append, starts]
          rw [starts] at read
          exact readValue_object shallow read

/-! ## All values -/

/-- A value of some levels is read back inside others, as long as all of them together are
not too many. -/
theorem readsBack {levels depth : Nat} {value : Json} (fits : FitsIn levels value)
    (shallow : levels + depth ≤ maxDepth) : ReadsBack depth value := by
  -- By the levels and not by the value, whose parts stand in lists: what is left of them
  -- and what is opened so far stay the same together.
  induction levels generalizing depth value with
  | zero => exact readsBack_scalar fits depth
  | succ levels induction =>
      cases value with
      | null | bool | integer | real | string =>
          apply readsBack_scalar
          exact fits
      | array items =>
          refine readsBack_array (by omega) fits fun item isItem => ?_
          exact induction (fits item isItem) (by omega)
      | object fields =>
          refine readsBack_object (by omega) fun field isField => ?_
          exact induction (fits field isField) (by omega)

/-- The text of a value is read back as that value. -/
theorem parse_print {value : Json} (fits : FitsIn maxDepth value) :
    parse value.print = (.ofJson value, true) := by
  have readBack : ReadsBack 0 value := readsBack fits (Nat.le_refl _)
  have read := readBack (2 * value.print.toList.length + 2) [] (by omega) nofun
  rw [List.append_nil] at read
  rw [parse, read]
  rfl

end Draft

/-- Two values of one text are the same value. -/
theorem print_injective {left right : Json} (leftFits : FitsIn maxDepth left)
    (rightFits : FitsIn maxDepth right) (same : left.print = right.print) : left = right := by
  have read := Draft.parse_print leftFits
  rw [same, Draft.parse_print rightFits] at read
  exact (ofJson_injective (congrArg Prod.fst read)).symm

end ReorgSync.Json
