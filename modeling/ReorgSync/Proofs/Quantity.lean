import Mathlib.Data.List.Forall2
import Mathlib.Data.Nat.Digits.Defs
import ReorgSync.Quantity

namespace ReorgSync.Quantity

/-! Which texts are quantities, and which numbers they stand for. The grammar says nothing
of how a text is read: numerals have the value of their digits by place, however many
zeros stand in front, and the limit is one of the whole value. -/

/-! ## The grammar -/

/-- What a character stands for as a digit, in either case. -/
def Stands (base : Nat) (char : Char) (value : Nat) : Prop :=
  value < base ∧ (char = value.digitChar ∨ char = value.digitChar.toUpper)

/-- At least one digit, the highest first. -/
def IsNumeral (base : Nat) (chars : List Char) (value : Nat) : Prop :=
  chars ≠ [] ∧ ∃ values, List.Forall₂ (Stands base) chars values ∧
    Nat.ofDigits base values.reverse = value

/-- A numeral may have a sign, and it has to fit its word. -/
inductive IsUnsigned (base : Nat) : List Char → Nat → Prop
  | plain {digits : List Char} {value : Nat} (isNumeral : IsNumeral base digits value)
      (fits : value < limit) : IsUnsigned base digits value
  | signed {digits : List Char} {value : Nat} (isNumeral : IsNumeral base digits value)
      (fits : value < limit) : IsUnsigned base ('+' :: digits) value

/-- The mark of a hexadecimal text. -/
def IsMark (chars : List Char) : Prop :=
  chars = ['0', 'x'] ∨ chars = ['0', 'X']

/-- The texts of a quantity. -/
inductive Spells : List Char → Nat → Prop
  | bare {mark : List Char} (isMark : IsMark mark) : Spells mark 0
  | hexadecimal {mark chars : List Char} {value : Nat} (isMark : IsMark mark)
      (isUnsigned : IsUnsigned 16 chars value) : Spells (mark ++ chars) value
  | decimal {chars : List Char} {value : Nat}
      (unmarked : ∀ mark, IsMark mark → ¬ mark <+: chars)
      (isUnsigned : IsUnsigned 10 chars value) : Spells chars value

/-! ## Digits -/

variable {base value begun : Nat} {char : Char} {chars : List Char}

/-- A smaller base has the digits of base sixteen that are below it. -/
theorem digit?_eq_some_iff_sixteen (small : base ≤ 16) :
    digit? base char = some value ↔ digit? 16 char = some value ∧ value < base := by
  simp only [digit?, Option.filter_eq_some_iff, decide_eq_true_eq]
  constructor
  · intro found
    exact ⟨⟨found.1, Nat.lt_of_lt_of_le found.2 small⟩, found.2⟩
  · exact fun found => ⟨found.1.1, found.2⟩

theorem toNat_lt_of_digit? (found : digit? 16 char = some value) : char.toNat < 128 := by
  rw [digit?, Option.filter_eq_some_iff] at found
  have bounded : char ≤ 'f' := by
    replace found := found.1
    split at found
    case isTrue decimal => exact Char.le_trans decimal.2 (by decide)
    case isFalse =>
      split at found
      case isTrue lower => exact lower.2
      case isFalse =>
        split at found
        case isTrue upper => exact Char.le_trans upper.2 (by decide)
        case isFalse => contradiction
  exact Nat.lt_of_le_of_lt (Char.le_def.mp bounded) (by decide)

theorem digit?_eq_some_iff (small : base ≤ 16) :
    digit? base char = some value ↔ Stands base char value := by
  have reads : ∀ value < 16, digit? 16 value.digitChar = some value ∧
      digit? 16 value.digitChar.toUpper = some value := by decide
  have isRead : ∀ code < 128, ∀ value ∈ digit? 16 (Char.ofNat code),
      Char.ofNat code = value.digitChar ∨ Char.ofNat code = value.digitChar.toUpper := by decide
  rw [digit?_eq_some_iff_sixteen small]
  constructor
  · intro found
    have stands := isRead char.toNat (toNat_lt_of_digit? found.1) value
    rw [Char.ofNat_toNat] at stands
    exact ⟨found.2, stands found.1⟩
  · intro stands
    rcases stands with ⟨below, rfl | rfl⟩
    · exact ⟨(reads value (Nat.lt_of_lt_of_le below small)).1, below⟩
    · exact ⟨(reads value (Nat.lt_of_lt_of_le below small)).2, below⟩

/-- A sign is no digit. -/
theorem not_stands_plus (small : base ≤ 16) : ¬ Stands base '+' value := by
  have unread : digit? 16 '+' = none := by decide
  rw [← digit?_eq_some_iff small, digit?_eq_some_iff_sixteen small, unread]
  exact fun found => nomatch found.1

/-! ## Numerals -/

/-- The number that digits make of one that was read in front of them. -/
def continued (base begun : Nat) (values : List Nat) : Nat :=
  values.foldl (fun value next => value * base + next) begun

theorem continued_zero (base : Nat) (values : List Nat) :
    continued base 0 values = Nat.ofDigits base values.reverse := by
  rw [Nat.ofDigits_eq_foldr, List.foldr_reverse, continued]
  congr 1
  funext value next
  rw [Nat.mul_comm, Nat.add_comm]
  rfl

/-- More digits never make a number smaller. -/
theorem le_continued (positive : 0 < base) (begun : Nat) (values : List Nat) :
    begun ≤ continued base begun values := by
  induction values generalizing begun with
  | nil => exact Nat.le_refl begun
  | cons next rest induction =>
      calc begun
        _ ≤ begun * base := Nat.le_mul_of_pos_right begun positive
        _ ≤ begun * base + next := Nat.le_add_right _ _
        _ ≤ continued base begun (next :: rest) := induction _

/-- The digit loop checks the limit at each digit, which comes to the same as checking it
once, behind the last of them. -/
theorem digits_eq_ok_iff (positive : 0 < base) (small : base ≤ 16) (fits : begun < limit) :
    digits base chars begun = .ok value ↔ value < limit ∧
      ∃ values, List.Forall₂ (Stands base) chars values ∧ continued base begun values = value := by
  induction chars generalizing begun with
  | nil =>
      rw [digits, Except.ok.injEq]
      constructor
      · intro same
        subst same
        exact ⟨fits, [], .nil, rfl⟩
      · intro numeral
        rcases numeral with ⟨-, values, stand, isValue⟩
        cases stand
        exact isValue
  | cons char rest induction =>
      rw [digits]
      constructor
      · intro read
        cases found : digit? base char with
        | none =>
            rw [found] at read
            contradiction
        | some next =>
            simp only [found] at read
            split at read
            case isTrue below =>
              rcases (induction below).mp read with ⟨fits, values, stand, isValue⟩
              exact ⟨fits, next :: values, .cons ((digit?_eq_some_iff small).mp found) stand,
                isValue⟩
            case isFalse => contradiction
      · intro numeral
        rcases numeral with ⟨fits, values, stand, isValue⟩
        cases stand with
        | @cons _ next _ values isDigit stand =>
            have below : begun * base + next < limit := by
              have grown := le_continued positive (begun * base + next) values
              exact Nat.lt_of_le_of_lt (Nat.le_trans grown (Nat.le_of_eq isValue)) fits
            simp only [(digit?_eq_some_iff small).mpr isDigit, if_pos below]
            exact (induction below).mpr ⟨fits, values, stand, isValue⟩

theorem digits_eq_ok_iff_isNumeral (positive : 0 < base) (small : base ≤ 16) (some : chars ≠ []) :
    digits base chars 0 = .ok value ↔ IsNumeral base chars value ∧ value < limit := by
  rw [digits_eq_ok_iff positive small (by decide)]
  simp only [continued_zero, IsNumeral]
  constructor
  · exact fun numeral => ⟨⟨some, numeral.2⟩, numeral.1⟩
  · exact fun numeral => ⟨numeral.2, numeral.1.2⟩

theorem IsNumeral.head_ne_plus (numeral : IsNumeral base chars value) (small : base ≤ 16)
    (rest : List Char) : chars ≠ '+' :: rest := by
  intro same
  subst same
  rcases numeral with ⟨-, values, stand, -⟩
  cases stand with
  | cons isDigit _ => exact not_stands_plus small isDigit

theorem IsUnsigned.ne_nil (isUnsigned : IsUnsigned base chars value) : chars ≠ [] := by
  cases isUnsigned with
  | plain numeral fits => exact numeral.1
  | signed numeral fits => exact List.cons_ne_nil _ _

theorem unsigned_eq_ok_iff (positive : 0 < base) (small : base ≤ 16) :
    unsigned base chars = .ok value ↔ IsUnsigned base chars value := by
  constructor
  · intro read
    rw [unsigned.eq_def] at read
    split at read
    case h_1 => contradiction
    case h_2 => contradiction
    case h_3 rest notAlone =>
      have numeral := (digits_eq_ok_iff_isNumeral positive small notAlone).mp read
      exact .signed numeral.1 numeral.2
    case h_4 notEmpty _ _ =>
      have numeral := (digits_eq_ok_iff_isNumeral positive small notEmpty).mp read
      exact .plain numeral.1 numeral.2
  · intro isUnsigned
    cases isUnsigned with
    | plain numeral fits =>
        have noSign := numeral.head_ne_plus small
        rw [unsigned.eq_4 base chars numeral.1 (noSign []) noSign]
        exact (digits_eq_ok_iff_isNumeral positive small numeral.1).mpr ⟨numeral, fits⟩
    | @signed digits _ numeral fits =>
        rw [unsigned.eq_3 base digits numeral.1]
        exact (digits_eq_ok_iff_isNumeral positive small numeral.1).mpr ⟨numeral, fits⟩

/-! ## Texts -/

variable {text : String} {mark : List Char}

theorem parse_of_bare (isMark : IsMark mark) (isText : text.toList = mark) :
    parse text = .ok 0 := by
  rw [parse, isText]
  rcases isMark with rfl | rfl <;> rfl

theorem parse_of_marked (isMark : IsMark mark) (isText : text.toList = mark ++ chars)
    (notBare : chars ≠ []) : parse text = unsigned 16 chars := by
  rcases List.exists_cons_of_ne_nil notBare with ⟨first, rest, rfl⟩
  rw [parse, isText]
  rcases isMark with rfl | rfl <;> rfl

theorem parse_of_unmarked (unmarked : ∀ mark, IsMark mark → ¬ mark <+: text.toList) :
    parse text = unsigned 10 text.toList := by
  have lower := unmarked ['0', 'x'] (.inl rfl)
  have upper := unmarked ['0', 'X'] (.inr rfl)
  rw [parse]
  split
  case h_1 isText => exact absurd (isText ▸ List.prefix_rfl) lower
  case h_2 isText => exact absurd (isText ▸ List.prefix_rfl) upper
  case h_3 rest _ isText => exact absurd (isText ▸ List.prefix_append ['0', 'x'] rest) lower
  case h_4 rest _ isText => exact absurd (isText ▸ List.prefix_append ['0', 'X'] rest) upper
  case h_5 => rfl

theorem parse_eq_ok_iff : parse text = .ok value ↔ Spells text.toList value := by
  constructor
  · intro read
    by_cases marked : ∃ mark, IsMark mark ∧ mark <+: text.toList
    case pos =>
      rcases marked with ⟨mark, isMark, chars, isText⟩
      rw [← isText]
      cases chars with
      | nil =>
          rw [List.append_nil] at isText ⊢
          rw [parse_of_bare isMark isText.symm] at read
          cases read
          exact .bare isMark
      | cons first rest =>
          rw [parse_of_marked isMark isText.symm (List.cons_ne_nil first rest)] at read
          exact .hexadecimal isMark ((unsigned_eq_ok_iff (by decide) (by decide)).mp read)
    case neg =>
      have unmarked : ∀ mark, IsMark mark → ¬ mark <+: text.toList :=
        fun mark isMark isFront => marked ⟨mark, isMark, isFront⟩
      rw [parse_of_unmarked unmarked] at read
      exact .decimal unmarked ((unsigned_eq_ok_iff (by decide) (by decide)).mp read)
  · intro spells
    generalize isText : text.toList = chars at spells
    cases spells with
    | bare isMark => exact parse_of_bare isMark isText
    | hexadecimal isMark isUnsigned =>
        rw [parse_of_marked isMark isText isUnsigned.ne_nil]
        exact (unsigned_eq_ok_iff (by decide) (by decide)).mpr isUnsigned
    | decimal unmarked isUnsigned =>
        subst isText
        rw [parse_of_unmarked unmarked]
        exact (unsigned_eq_ok_iff (by decide) (by decide)).mpr isUnsigned

/-! ## Written quantities -/

theorem isNumeral_digitChar {next : Nat} (isDigit : next < base) :
    IsNumeral base [next.digitChar] next :=
  ⟨List.cons_ne_nil _ _, [next], .cons ⟨isDigit, .inl rfl⟩ .nil, Nat.ofDigits_singleton⟩

theorem IsNumeral.concat_digitChar (numeral : IsNumeral base chars value) {next : Nat}
    (isDigit : next < base) :
    IsNumeral base (chars ++ [next.digitChar]) (next + base * value) := by
  rcases numeral with ⟨-, values, stand, rfl⟩
  have last : List.Forall₂ (Stands base) [next.digitChar] [next] :=
    .cons ⟨isDigit, .inl rfl⟩ .nil
  refine ⟨List.append_ne_nil_of_right_ne_nil _ (List.cons_ne_nil _ _), values ++ [next],
    List.rel_append stand last, ?_⟩
  rw [List.reverse_concat, Nat.ofDigits_cons]

/-- The digits that are written of a number are a numeral of that number. -/
theorem isNumeral_toDigits (large : 1 < base) (value : Nat) :
    IsNumeral base (Nat.toDigits base value) value := by
  induction value using Nat.strongRecOn with
  | ind value induction =>
      rcases Nat.lt_or_ge value base with below | reaches
      · rw [Nat.toDigits_of_lt_base below]
        exact isNumeral_digitChar below
      · have lower : value / base < value := Nat.div_lt_self (by omega) large
        have isDigit : value % base < base := Nat.mod_lt value (by omega)
        have numeral := (induction (value / base) lower).concat_digitChar isDigit
        rw [Nat.mod_add_div] at numeral
        rw [Nat.toDigits_of_base_le large reaches]
        exact numeral

theorem parse_encode {value : Nat} (fits : value < limit) : parse (encode value) = .ok value := by
  have text : (encode value).toList = ['0', 'x'] ++ Nat.toDigits 16 value := by
    simp [encode, hexDigits]
  rw [parse_eq_ok_iff, text]
  exact .hexadecimal (.inl rfl) (.plain (isNumeral_toDigits (by decide) value) fits)

/-- A text is read as a number exactly if it spells that number, and it is refused exactly if
it spells none. What is written of a word is read back as that word. -/
theorem parse_reads_spelled (text : String) :
    (∀ value, parse text = .ok value ↔ Spells text.toList value) ∧
      ((∃ fault, parse text = .error fault) ↔ ∀ value, ¬ Spells text.toList value) ∧
      ∀ value < limit, parse (encode value) = .ok value := by
  refine ⟨fun value => parse_eq_ok_iff, ?_, fun value fits => parse_encode fits⟩
  simp only [← parse_eq_ok_iff]
  cases parse text with
  | error fault => exact ⟨fun _ value => nofun, fun _ => ⟨fault, rfl⟩⟩
  | ok value => exact ⟨nofun, fun unread => absurd rfl (unread value)⟩

/-- A sign and zeros in front of digits of both cases, and the largest word. -/
theorem parse_reads_spelled_signed :
    Spells ['0', 'x', '+', '0', '0', 'f', 'F'] 255 ∧ limit - 1 < limit ∧
      parse (encode (limit - 1)) = .ok (limit - 1) := by
  have largest : limit - 1 < limit := by decide
  rcases parse_reads_spelled "0x+00fF" with ⟨spells, -, written⟩
  exact ⟨(spells 255).mp rfl, largest, written (limit - 1) largest⟩

end ReorgSync.Quantity
