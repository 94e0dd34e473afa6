import ReorgSync.Json.Parse
import ReorgSync.Json.Print

namespace ReorgSync.Json.Lexical

/-! Strings and numbers that are written are read back as they were. -/

/-! ## Strings -/

theorem hexValue?_hexDigit {value : Nat} (isDigit : value < 16) :
    hexValue? (hexDigit value) = some value := by
  have all : ∀ value < 16, hexValue? (hexDigit value) = some value := by decide
  exact all value isDigit

/-- A part that stands for one character, whatever follows it. -/
def Part.Means (part : Part) (char : Char) : Prop :=
  ∀ rest, join? (part :: rest) = (join? rest).map (char :: ·)

theorem Part.means_char (char : Char) : (Part.char char).Means char :=
  fun _ => rfl

/-- No control character is half of a pair. -/
theorem Part.means_unit {char : Char} (isControl : char.toNat < 32) :
    (Part.unit char.toNat).Means char := by
  have notHigh : isHighHalf char.toNat = false := by
    rw [isHighHalf, decide_eq_false_iff_not]
    omega
  have notLow : isLowHalf char.toNat = false := by
    rw [isLowHalf, decide_eq_false_iff_not]
    omega
  intro rest
  rcases rest with - | ⟨next | next, rest⟩ <;>
    simp [join?, notHigh, notLow, Char.ofNat_toNat]

/-- A part in front of what else there is. -/
def withPart (part : Part) (read : Option (List Part × List Char)) :
    Option (List Part × List Char) :=
  read.map fun read => (part :: read.1, read.2)

theorem parts?_short {letter char : Char} (isShort : shortEscape? letter = some char)
    (text : List Char) :
    parts? ('\\' :: letter :: text) = withPart (.char char) (parts? text) := by
  have notUnit : letter ≠ 'u' := by
    rintro rfl
    cases isShort
  rw [parts?.eq_4 _ _ fun _ _ _ _ _ isUnit _ => notUnit isUnit, isShort]
  cases parts? text <;> rfl

/-- Two digits are enough for a control character. -/
theorem parts?_control {char : Char} (isControl : char.toNat < 32) (text : List Char) :
    parts? ('\\' :: 'u' :: '0' :: '0' :: hexDigit (char.toNat / 16) ::
        hexDigit (char.toNat % 16) :: text) =
      withPart (.unit char.toNat) (parts? text) := by
  have zero : hexValue? '0' = some 0 := rfl
  have value : char.toNat / 16 * 16 + char.toNat % 16 = char.toNat := by omega
  rw [parts?.eq_3, zero, hexValue?_hexDigit (by omega), hexValue?_hexDigit (by omega)]
  cases parts? text <;> simp [withPart, value]

theorem parts?_plain {char : Char} (notQuote : char ≠ '\"') (notEscape : char ≠ '\\')
    (notControl : ¬ char.toNat < 32) (text : List Char) :
    parts? (char :: text) = withPart (.char char) (parts? text) := by
  rw [parts?.eq_6 _ _ notQuote (fun _ _ _ _ _ isEscape _ => notEscape isEscape)
    (fun _ _ isEscape _ => notEscape isEscape) (fun isEscape _ => notEscape isEscape),
    if_neg notControl]
  cases parts? text <;> rfl

/-- One character is written as one part. -/
theorem parts?_escapeChar (char : Char) :
    ∃ part : Part, part.Means char ∧
      ∀ text, parts? (escapeChar char ++ text) = withPart part (parts? text) := by
  unfold escapeChar
  split
  case h_8 notQuote notEscape _ _ _ _ _ =>
    split
    case isTrue isControl =>
      exact ⟨.unit char.toNat, Part.means_unit isControl, parts?_control isControl⟩
    case isFalse notControl =>
      exact ⟨.char char, Part.means_char char, parts?_plain notQuote notEscape notControl⟩
  all_goals exact ⟨_, Part.means_char _, parts?_short rfl⟩

/-- All characters of a string up to its closing quote. -/
theorem parts?_flatMap_escapeChar (chars rest : List Char) :
    ∃ parts, parts? (chars.flatMap escapeChar ++ '\"' :: rest) = some (parts, rest) ∧
      join? parts = some chars := by
  induction chars with
  | nil => exact ⟨[], parts?.eq_2 rest, rfl⟩
  | cons char chars induction =>
      rcases induction with ⟨parts, read, joined⟩
      rcases parts?_escapeChar char with ⟨part, means, step⟩
      refine ⟨part :: parts, ?_, ?_⟩
      · rw [List.flatMap_cons, List.append_assoc, step, read]
        rfl
      · rw [means, joined]
        rfl

/-- A string behind its opening quote. -/
theorem string?_escaped (text : String) (rest : List Char) :
    string? (text.toList.flatMap escapeChar ++ '\"' :: rest) = some (some text, rest) := by
  rcases parts?_flatMap_escapeChar text.toList rest with ⟨parts, read, joined⟩
  rw [string?, read]
  change some ((join? parts).map String.ofList, rest) = _
  rw [joined, Option.map_some, String.ofList_toList]

/-! ## Numbers -/

/-- What may stand behind a number: no character that could belong to it. -/
def EndsNumber (rest : List Char) : Prop :=
  ∀ char ∈ rest.head?, char.isDigit = false ∧ char ≠ '.' ∧ char ≠ 'e' ∧ char ≠ 'E'

theorem digits_append {found rest : List Char} (areDigits : ∀ char ∈ found, char.isDigit)
    (ends : EndsNumber rest) : digits (found ++ rest) = (found, rest) := by
  have stops : rest.takeWhile Char.isDigit = [] ∧ rest.dropWhile Char.isDigit = rest := by
    cases rest with
    | nil => exact ⟨rfl, rfl⟩
    | cons char rest =>
        have notDigit := (ends char rfl).1
        simp [notDigit]
  rw [digits, List.takeWhile_append_of_pos areDigits, List.dropWhile_append_of_pos areDigits,
    stops.1, stops.2, List.append_nil]

/-- Only zero starts with a zero. -/
theorem head?_toDigits {value : Nat} (positive : 0 < value) :
    (Nat.toDigits 10 value).head? ≠ some '0' := by
  induction value using Nat.strongRecOn with
  | ind value induction =>
      rcases Nat.lt_or_ge value 10 with small | large
      · have all : ∀ value < 10, 0 < value → Nat.digitChar value ≠ '0' := by decide
        rw [Nat.toDigits_of_lt_base small]
        simpa using all value small positive
      · have front : (Nat.toDigits 10 value).head? = (Nat.toDigits 10 (value / 10)).head? := by
          rw [Nat.toDigits_of_base_le (by omega) large, List.head?_append]
          cases isDigits : Nat.toDigits 10 (value / 10) with
          | nil => exact absurd isDigits Nat.toDigits_ne_nil
          | cons first others => rfl
        rw [front]
        exact induction (value / 10) (by omega) (by omega)

theorem whole?_toDigits (value : Nat) {rest : List Char} (ends : EndsNumber rest) :
    whole? (Nat.toDigits 10 value ++ rest) = some (Nat.toDigits 10 value, rest) := by
  have areDigits : ∀ char ∈ Nat.toDigits 10 value, char.isDigit :=
    fun _ isChar => Nat.isDigit_of_mem_toDigits (by omega) (by omega) isChar
  rw [whole?, digits_append areDigits ends]
  split
  case h_1 isEmpty => exact absurd (congrArg Prod.fst isEmpty) Nat.toDigits_ne_nil
  case h_2 leading =>
    have starts := congrArg (List.head? ∘ Prod.fst) leading
    rcases Nat.eq_zero_or_pos value with rfl | positive
    · cases congrArg Prod.fst leading
    · exact absurd starts (head?_toDigits positive)
  case h_3 read => rw [← read]

theorem fraction?_nothing {rest : List Char} (ends : EndsNumber rest) :
    fraction? rest = some ([], rest) := by
  unfold fraction?
  split
  case h_1 => exact absurd rfl (ends '.' rfl).2.1
  case h_2 => rfl

theorem exponent?_nothing {rest : List Char} (ends : EndsNumber rest) :
    exponent? rest = some (none, rest) := by
  cases rest with
  | nil => rfl
  | cons char rest =>
      have noExponent : ¬ (char = 'e' ∨ char = 'E') := not_or.mpr (ends char rfl).2.2
      simp [exponent?, noExponent]

theorem le_ofDigitChars (found : List Char) (value : Nat) :
    value ≤ Nat.ofDigitChars 10 found value := by
  induction found generalizing value with
  | nil => exact Nat.le_of_eq Nat.ofDigitChars_nil.symm
  | cons digit found induction =>
      rw [Nat.ofDigitChars_cons]
      have later := induction (10 * value + (digit.toNat - '0'.toNat))
      omega

/-- Digits whose value fits a word are all significant. -/
theorem significant_of_fits {found : List Char} {value : Nat}
    (fits : Nat.ofDigitChars 10 found value < Word.size 64) :
    significant value found = (Nat.ofDigitChars 10 found value, []) := by
  induction found generalizing value with
  | nil => rfl
  | cons digit found induction =>
      rw [Nat.ofDigitChars_cons, Nat.mul_comm 10 value] at fits ⊢
      rw [significant, if_pos (Nat.lt_of_le_of_lt (le_ofDigitChars found _) fits)]
      exact induction fits

theorem significant_toDigits {value : Nat} (fits : value < Word.size 64) :
    significant 0 (Nat.toDigits 10 value) = (value, []) := by
  have fitsDigits : Nat.ofDigitChars 10 (Nat.toDigits 10 value) 0 < Word.size 64 := by
    rwa [Nat.ofDigitChars_ten_toDigits]
  have read := significant_of_fits fitsDigits
  rwa [Nat.ofDigitChars_ten_toDigits] at read

theorem numberValue_natural {value : Nat} (fits : value < Word.size 64) :
    numberValue false (Nat.toDigits 10 value) [] none = .integer value := by
  simp [numberValue, significant_toDigits fits, significant]

theorem numberValue_negative {value : Nat} (positive : 0 < value)
    (fits : Word.lowest 64 ≤ -(value : Int)) :
    numberValue true (Nat.toDigits 10 value) [] none = .integer (-value) := by
  have fitsWord : value < Word.size 64 := by
    rw [Word.lowest] at fits
    have half : Word.size (64 - 1) < Word.size 64 := by decide
    omega
  simp [numberValue, significant_toDigits fitsWord, significant, positive, fits]

/-- A whole number starts with its sign or with a digit. -/
theorem toString_first (value : Int) :
    ∃ char others, (toString value).toList = char :: others ∧
      (char = '-' ∨ char.isDigit = true) := by
  cases value with
  | ofNat value =>
      have text : (toString (Int.ofNat value)).toList = Nat.toDigits 10 value := Nat.toList_repr
      rw [text]
      cases isDigits : Nat.toDigits 10 value with
      | nil => exact absurd isDigits Nat.toDigits_ne_nil
      | cons first others =>
          have isFirst : first ∈ Nat.toDigits 10 value := isDigits ▸ List.mem_cons_self
          have isDigit := Nat.isDigit_of_mem_toDigits (by omega) (by omega) isFirst
          exact ⟨first, others, rfl, .inr isDigit⟩
  | negSucc value =>
      refine ⟨'-', (Nat.repr (value + 1)).toList, ?_, .inl rfl⟩
      change ("-" ++ Nat.repr (value + 1)).toList = _
      rw [String.toList_append]
      rfl

/-- A whole number in the range of words is read as it was written. -/
theorem number?_toString {value : Int} (lowest : Word.lowest 64 ≤ value)
    (highest : value < Word.size 64) {rest : List Char} (ends : EndsNumber rest) :
    number? ((toString value).toList ++ rest) = some (.integer value, rest) := by
  cases value with
  | ofNat value =>
      have text : (toString (Int.ofNat value)).toList = Nat.toDigits 10 value := Nat.toList_repr
      have noSign : ∀ rest', Nat.toDigits 10 value ++ rest ≠ '-' :: rest' := by
        intro rest' isSign
        have first : '-' ∈ Nat.toDigits 10 value := by
          cases isDigits : Nat.toDigits 10 value with
          | nil => exact absurd isDigits Nat.toDigits_ne_nil
          | cons first others =>
              rw [isDigits] at isSign
              cases isSign
              exact List.mem_cons_self
        exact absurd (Nat.isDigit_of_mem_toDigits (by omega) (by omega) first) (by decide)
      rw [text, number?.eq_2 _ noSign]
      simp [whole?_toDigits value ends, fraction?_nothing ends, exponent?_nothing ends,
        numberValue_natural (Int.ofNat_lt.mp highest)]
  | negSucc value =>
      have text : (toString (Int.negSucc value)).toList = '-' :: Nat.toDigits 10 (value + 1) := by
        change ("-" ++ Nat.repr (value + 1)).toList = _
        rw [String.toList_append, Nat.toList_repr]
        rfl
      rw [text, List.cons_append, number?.eq_1]
      simp [whole?_toDigits _ ends, fraction?_nothing ends, exponent?_nothing ends,
        numberValue_negative (Nat.succ_pos value) lowest]
      have isNegative := Int.negSucc_eq value
      omega

end ReorgSync.Json.Lexical
