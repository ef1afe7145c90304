import Treescribe.Proofs.Value.Strings
import Treescribe.Proofs.Value.TargetForms
import Treescribe.Value.Rendering

/-!
# Float literals

The form of a float literal is stated by its parts here and compared with the reader. No integer
has that form, whatever its radix: letters are digits of the larger radixes, but the mark of a
radix is no part of a float. A float and a decimal integer in its place are written with one suffix.
The suffix is not part of any literal, so what is written is an expression and stays as it is.
-/

namespace Treescribe.Literal

/-- The optional sign of a number. -/
def signs : List (List Char) := [[], ['+'], ['-']]

/-- The fraction of a number with its point, or nothing. -/
inductive FractionPart : List Char → Prop where
  | absent : FractionPart []
  | digits {body : List Char} (digits : ∀ c ∈ body, c.isDigit) : FractionPart ('.' :: body)

/-- The exponent of a number with its mark, or nothing. -/
inductive ExponentPart : List Char → Prop where
  | absent : ExponentPart []
  | digits {mark : Char} {sign body : List Char} (marked : mark = 'e' ∨ mark = 'E')
      (signed : sign ∈ signs) (nonempty : body ≠ []) (digits : ∀ c ∈ body, c.isDigit) :
      ExponentPart (mark :: (sign ++ body))

/-- An unsigned decimal: digits, an optional fraction and an optional exponent, with at least one
digit before the exponent. -/
inductive DecimalForm : List Char → Prop where
  | parts {whole fraction exponent : List Char} (digits : ∀ c ∈ whole, c.isDigit)
      (fractionPart : FractionPart fraction) (exponentPart : ExponentPart exponent)
      (someDigit : ∃ c ∈ whole ++ fraction, c.isDigit) :
      DecimalForm (whole ++ (fraction ++ exponent))

/-- A float literal: an optional sign and a body that starts with a digit or a point, has a point
or the mark of an exponent, and is a decimal without its underscores. -/
inductive FloatForm : List Char → Prop where
  | parts {sign body : List Char} (signed : sign ∈ signs)
      (starts : ∃ c ∈ body.head?, c.isDigit ∨ c = '.')
      (marked : ∃ c ∈ body, c = '.' ∨ c = 'e' ∨ c = 'E')
      (decimal : DecimalForm (body.filter (· != '_'))) : FloatForm (sign ++ body)

/-- A text is what stands behind its sign, with that sign in front. -/
theorem exists_sign (text : List Char) : ∃ sign ∈ signs, text = sign ++ unsigned text := by
  unfold unsigned
  split
  · exact ⟨['+'], by decide, rfl⟩
  · exact ⟨['-'], by decide, rfl⟩
  · exact ⟨[], by decide, rfl⟩

/-- A sign in front of a text that starts with none is taken off. -/
theorem unsigned_append {sign body : List Char} (signed : sign ∈ signs)
    (plain : ∀ c ∈ body.head?, c ≠ '+' ∧ c ≠ '-') : unsigned (sign ++ body) = body := by
  simp only [signs, List.mem_cons, List.not_mem_nil, or_false] at signed
  rcases signed with rfl | rfl | rfl
  · unfold unsigned
    split <;> simp_all
  · rfl
  · rfl

/-- No digit is a sign. -/
theorem not_sign_of_isDigit {c : Char} (digit : c.isDigit) : c ≠ '+' ∧ c ≠ '-' := by
  constructor <;> rintro rfl <;> revert digit <;> decide

/-- What starts with a digit or a point does not start with a sign. -/
theorem plain_of_starts {body : List Char} (starts : ∃ c ∈ body.head?, c.isDigit ∨ c = '.') :
    ∀ c ∈ body.head?, c ≠ '+' ∧ c ≠ '-' := by
  obtain ⟨first, found, numeric⟩ := starts
  intro c other
  obtain rfl : first = c := Option.mem_unique found other
  rcases numeric with digit | rfl
  · exact not_sign_of_isDigit digit
  · decide

/-- Digits in front of a text that starts with none are taken off. -/
theorem span_digits {digits rest : List Char} (all : ∀ c ∈ digits, c.isDigit)
    (stops : ∀ c ∈ rest.head?, c.isDigit = false) :
    (digits ++ rest).takeWhile Char.isDigit = digits ∧
      (digits ++ rest).dropWhile Char.isDigit = rest := by
  rw [List.takeWhile_append_of_pos all, List.dropWhile_append_of_pos all]
  cases rest with
  | nil => simp
  | cons c rest => simp [stops c rfl]

/-- What is left behind the digits in front of a text does not start with a digit. -/
theorem dropWhile_stops (text : List Char) :
    ∀ c ∈ (text.dropWhile Char.isDigit).head?, c.isDigit = false := by
  intro c first
  have ends := List.head?_dropWhile_not Char.isDigit text
  rwa [Option.mem_def.mp first] at ends

/-- An exponent is read by its parts. -/
theorem isExponent_iff {text : List Char} : isExponent text ↔ ExponentPart text := by
  constructor
  · intro accepted
    rcases text with _ | ⟨mark, rest⟩
    · exact .absent
    · simp only [isExponent, Bool.and_eq_true, Bool.or_eq_true, beq_iff_eq, Bool.not_eq_true',
        List.isEmpty_eq_false_iff, List.all_eq_true] at accepted
      obtain ⟨⟨marked, nonempty⟩, digits⟩ := accepted
      obtain ⟨sign, signed, whole⟩ := exists_sign rest
      rw [whole]
      exact .digits marked signed nonempty digits
  · rintro (_ | ⟨marked, signed, nonempty, digits⟩)
    · rfl
    · have plain := unsigned_append signed fun c first =>
        not_sign_of_isDigit (digits c (List.mem_of_mem_head? first))
      simpa [isExponent, plain, nonempty, List.all_eq_true] using ⟨marked, digits⟩

/-- An exponent does not start with a digit. -/
theorem ExponentPart.stops {exponent : List Char} (exponentPart : ExponentPart exponent) :
    ∀ c ∈ exponent.head?, c.isDigit = false ∧ c ≠ '.' := by
  rintro c first
  rcases exponentPart with _ | ⟨marked, -, -, -⟩
  · cases first
  · cases first
    rcases marked with rfl | rfl <;> decide

section Decimal

variable {whole rest : List Char}

/-- There is a digit around a point exactly if there is something on one side of it. -/
theorem exists_digit_iff {body : List Char} (digits : ∀ c ∈ whole, c.isDigit)
    (bodyDigits : ∀ c ∈ body, c.isDigit) :
    (∃ c ∈ whole ++ '.' :: body, c.isDigit) ↔ whole ≠ [] ∨ body ≠ [] := by
  constructor
  · rintro ⟨c, member, digit⟩
    by_contra none
    simp only [not_or, not_not] at none
    rw [none.1, none.2, List.nil_append, List.mem_singleton] at member
    rw [member] at digit
    exact absurd digit (by decide)
  · rintro (nonempty | nonempty)
    · obtain ⟨c, member⟩ := List.exists_mem_of_ne_nil whole nonempty
      exact ⟨c, List.mem_append_left _ member, digits c member⟩
    · obtain ⟨c, member⟩ := List.exists_mem_of_ne_nil body nonempty
      exact ⟨c, by simp [member], bodyDigits c member⟩

/-- A decimal without a point has digits and may have an exponent behind them. -/
theorem isDecimal_whole (digits : ∀ c ∈ whole, c.isDigit)
    (stops : ∀ c ∈ rest.head?, c.isDigit = false ∧ c ≠ '.') :
    isDecimal (whole ++ rest) ↔ whole ≠ [] ∧ ExponentPart rest := by
  obtain ⟨taken, dropped⟩ := span_digits digits fun c first => (stops c first).1
  unfold isDecimal
  rw [taken, dropped]
  split
  · exact absurd rfl (stops '.' rfl).2
  · simp [isExponent_iff]

/-- A decimal with a point has digits on one side of it at least. -/
theorem isDecimal_point {body exponent : List Char} (digits : ∀ c ∈ whole, c.isDigit)
    (bodyDigits : ∀ c ∈ body, c.isDigit) (stops : ∀ c ∈ exponent.head?, c.isDigit = false) :
    isDecimal (whole ++ '.' :: (body ++ exponent)) ↔
      (whole ≠ [] ∨ body ≠ []) ∧ ExponentPart exponent := by
  have pointed : ∀ c ∈ ('.' :: (body ++ exponent)).head?, c.isDigit = false := by simp
  obtain ⟨taken, dropped⟩ := span_digits digits pointed
  obtain ⟨takenBody, droppedBody⟩ := span_digits bodyDigits stops
  unfold isDecimal
  rw [taken, dropped]
  simp only [takenBody, droppedBody]
  simp [isExponent_iff, or_iff_not_imp_left]

end Decimal

/-- A decimal is read by its parts. -/
theorem isDecimal_iff {text : List Char} : isDecimal text ↔ DecimalForm text := by
  constructor
  · intro accepted
    have digits : ∀ c ∈ text.takeWhile Char.isDigit, c.isDigit := fun c => List.mem_takeWhile_imp
    have stops := dropWhile_stops text
    -- The text is cut as the reader cuts it, so that both readings speak of the same parts.
    have cut := List.takeWhile_append_dropWhile (p := Char.isDigit) (l := text)
    generalize text.takeWhile Char.isDigit = whole at digits cut
    generalize text.dropWhile Char.isDigit = rest at stops cut
    rw [← cut] at accepted ⊢
    by_cases point : rest.head? = some '.'
    · obtain ⟨behind, rfl⟩ := List.head?_eq_some_iff.mp point
      have bodyDigits : ∀ c ∈ behind.takeWhile Char.isDigit, c.isDigit :=
        fun c => List.mem_takeWhile_imp
      rw [← List.takeWhile_append_dropWhile (p := Char.isDigit) (l := behind)] at accepted ⊢
      obtain ⟨someDigit, exponentPart⟩ :=
        (isDecimal_point digits bodyDigits (dropWhile_stops behind)).mp accepted
      exact .parts digits (.digits bodyDigits) exponentPart
        ((exists_digit_iff digits bodyDigits).mpr someDigit)
    · have pointless : ∀ c ∈ rest.head?, c.isDigit = false ∧ c ≠ '.' := by
        intro c first
        refine ⟨stops c first, ?_⟩
        rintro rfl
        exact point first
      obtain ⟨nonempty, exponentPart⟩ := (isDecimal_whole digits pointless).mp accepted
      obtain ⟨c, member⟩ := List.exists_mem_of_ne_nil whole nonempty
      exact .parts digits .absent exponentPart ⟨c, List.mem_append_left _ member, digits c member⟩
  · rintro @⟨whole, fraction, exponent, digits, fractionPart, exponentPart, someDigit⟩
    rcases fractionPart with _ | ⟨bodyDigits⟩
    · have nonempty : whole ≠ [] := by
        rintro rfl
        obtain ⟨c, member, -⟩ := someDigit
        cases member
      exact (isDecimal_whole digits exponentPart.stops).mpr ⟨nonempty, exponentPart⟩
    · rw [exists_digit_iff digits bodyDigits] at someDigit
      have stops c first := (exponentPart.stops c first).1
      exact (isDecimal_point digits bodyDigits stops).mpr ⟨someDigit, exponentPart⟩

/-- A float literal is read by its parts. -/
theorem isFloat_iff {text : List Char} : isFloat text ↔ FloatForm text := by
  have parts : isFloat text ↔ (∃ c ∈ (unsigned text).head?, c.isDigit ∨ c = '.') ∧
      (∃ c ∈ unsigned text, c = '.' ∨ c = 'e' ∨ c = 'E') ∧
      DecimalForm ((unsigned text).filter (· != '_')) := by
    rw [← isDecimal_iff]
    simp [isFloat, Option.any_eq_true, or_assoc, and_assoc]
  rw [parts]
  constructor
  · rintro ⟨starts, marked, decimal⟩
    obtain ⟨sign, signed, whole⟩ := exists_sign text
    rw [whole]
    exact .parts signed starts marked decimal
  · rintro ⟨signed, starts, marked, decimal⟩
    have plain := unsigned_append signed (plain_of_starts starts)
    rw [plain]
    exact ⟨starts, marked, decimal⟩

/-- The digits by their code points. -/
theorem isDigit_iff {c : Char} : c.isDigit ↔ 48 ≤ c.toNat ∧ c.toNat ≤ 57 := by
  simp only [Char.isDigit, Bool.and_eq_true, decide_eq_true_eq, ge_iff_le, UInt32.le_iff_toNat_le]
  rfl

/-- The digits of the decimal radix are the digits. -/
theorem isDigit_decimal (c : Char) : Radix.decimal.isDigit c = c.isDigit := by
  have same : ('0' ≤ c && c ≤ '9') = c.isDigit := rfl
  unfold Radix.isDigit digitValue?
  rw [same]
  cases digit : c.isDigit with
  | true =>
    have high := (isDigit_iff.mp digit).2
    have small : c.toNat - 48 < 10 := by omega
    exact decide_eq_true small
  | false =>
    -- The values of letters start at ten.
    have large (value : Nat) : decide (value + 10 < 10) = false := by simp
    rw [if_neg Bool.false_ne_true]
    split
    · exact large (c.toNat - 'a'.toNat)
    · split
      · exact large (c.toNat - 'A'.toNat)
      · rfl

/-- The characters that a float literal can have. -/
def floatChars : List Char :=
  ['0', '1', '2', '3', '4', '5', '6', '7', '8', '9', '_', '.', 'e', 'E', '+', '-']

/-- A digit can be part of a float literal. -/
theorem mem_floatChars_of_isDigit {c : Char} (digit : c.isDigit) : c ∈ floatChars := by
  have listed : ∀ value < 10, Nat.digitChar value ∈ floatChars := by decide
  obtain ⟨low, high⟩ := isDigit_iff.mp digit
  have small : c.toNat - 48 < 10 := by omega
  have rebuilt : Nat.digitChar (c.toNat - 48) = c := by
    apply Char.toNat_inj.mp
    rw [Nat.toNat_digitChar_of_lt_ten small]
    omega
  exact rebuilt ▸ listed _ small

/-- A sign can be part of a float literal. -/
theorem mem_floatChars_of_sign {sign : List Char} (signed : sign ∈ signs) :
    ∀ c ∈ sign, c ∈ floatChars := by
  simp only [signs, List.mem_cons, List.not_mem_nil, or_false] at signed
  rcases signed with rfl | rfl | rfl <;> simp [floatChars]

/-- A decimal has no other characters. -/
theorem DecimalForm.subset_floatChars {text : List Char} (form : DecimalForm text) :
    text ⊆ floatChars := by
  obtain ⟨digits, fractionPart, exponentPart, -⟩ := form
  intro c member
  simp only [List.mem_append] at member
  rcases member with member | member | member
  · exact mem_floatChars_of_isDigit (digits c member)
  · rcases fractionPart with _ | ⟨bodyDigits⟩
    · cases member
    · rcases List.mem_cons.mp member with rfl | member
      · decide
      · exact mem_floatChars_of_isDigit (bodyDigits c member)
  · rcases exponentPart with _ | ⟨marked, signed, -, bodyDigits⟩
    · cases member
    · rcases List.mem_cons.mp member with rfl | member
      · rcases marked with rfl | rfl <;> decide
      · rcases List.mem_append.mp member with member | member
        · exact mem_floatChars_of_sign signed c member
        · exact mem_floatChars_of_isDigit (bodyDigits c member)

/-- A float literal has no other characters. -/
theorem FloatForm.subset_floatChars {text : List Char} (form : FloatForm text) :
    text ⊆ floatChars := by
  obtain ⟨signed, -, -, decimal⟩ := form
  intro c member
  rcases List.mem_append.mp member with member | member
  · exact mem_floatChars_of_sign signed c member
  · by_cases underscore : c = '_'
    · rw [underscore]
      decide
    · exact decimal.subset_floatChars (List.mem_filter.mpr ⟨member, by simp [underscore]⟩)

/-- The letters that mark a radix. -/
def radixMarks : List Char := ['x', 'X', 'o', 'O', 'b', 'B']

/-- A number is decimal, or it has the mark of another radix. -/
theorem splitRadix_cases (body : List Char) :
    splitRadix body = (.decimal, body) ∨
      (splitRadix body).1 ≠ .decimal ∧ ∃ mark ∈ radixMarks, mark ∈ body := by
  unfold splitRadix
  split <;> simp [radixMarks]

/-- A decimal integer has digits and underscores behind its sign, and starts with a digit. -/
theorem isDigits_decimal_iff {body : List Char} :
    isDigits .decimal body ↔
      body ≠ [] ∧ body.head? ≠ some '_' ∧ ∀ c ∈ body, c = '_' ∨ c.isDigit := by
  simp [isDigits, isDigit_decimal, and_assoc]

/-- The characters of a float literal, and the suffix. -/
def suffixedChars : List Char := 'f' :: floatChars

/-- An integer without the mark of a radix has digits and underscores behind its sign. -/
theorem digits_of_unmarked {text : List Char}
    (unmarked : splitRadix (unsigned text) = (.decimal, unsigned text))
    (integer : isInteger text) : ∀ c ∈ unsigned text, c = '_' ∨ c.isDigit := by
  rw [isInteger, unmarked] at integer
  exact (isDigits_decimal_iff.mp integer).2.2

/-- An integer of these characters has no mark of a radix, so that it is decimal. -/
theorem digits_of_isInteger {text : List Char} (plain : text ⊆ suffixedChars)
    (integer : isInteger text) : ∀ c ∈ unsigned text, c = '_' ∨ c.isDigit := by
  rcases splitRadix_cases (unsigned text) with unmarked | ⟨-, mark, listed, member⟩
  · exact digits_of_unmarked unmarked integer
  · obtain ⟨sign, -, whole⟩ := exists_sign text
    have within : mark ∈ text := by
      rw [whole]
      exact List.mem_append_right sign member
    have apart : ∀ mark ∈ radixMarks, mark ∉ suffixedChars := by
      simp [radixMarks, suffixedChars, floatChars]
    exact absurd (plain within) (apart mark listed)

/-- No text is both an integer and a float. -/
theorem not_isInteger_and_isFloat (text : List Char) : ¬(isInteger text ∧ isFloat text) := by
  rintro ⟨integer, float⟩
  have plain : text ⊆ suffixedChars :=
    List.subset_cons_of_subset 'f' (isFloat_iff.mp float).subset_floatChars
  simp only [isFloat, Bool.and_eq_true, List.any_eq_true, Bool.or_eq_true, beq_iff_eq] at float
  -- A point or the mark of an exponent is neither a digit nor an underscore.
  obtain ⟨⟨-, c, member, marked⟩, -⟩ := float
  have digit := digits_of_isInteger plain integer c member
  rcases marked with (rfl | rfl) | rfl <;> exact absurd digit (by decide)

/-- A decimal integer has only characters that a float literal can have. -/
theorem subset_floatChars_of_decimal {text : List Char} (decimal : isDecimalInteger text) :
    text ⊆ floatChars := by
  rw [isDecimalInteger, Bool.and_eq_true, beq_iff_eq] at decimal
  have digits : ∀ c ∈ unsigned text, c = '_' ∨ c.isDigit := by
    rcases splitRadix_cases (unsigned text) with unmarked | ⟨other, -⟩
    · exact digits_of_unmarked unmarked decimal.1
    · exact absurd decimal.2 other
  obtain ⟨sign, signed, whole⟩ := exists_sign text
  rw [whole]
  intro c member
  rcases List.mem_append.mp member with member | member
  · exact mem_floatChars_of_sign signed c member
  · rcases digits c member with rfl | digit
    · decide
    · exact mem_floatChars_of_isDigit digit

section Suffix

variable {text : List Char}

/-- A text of these characters does not stand between quotes. -/
theorem isDelimited_of_subset (plain : text ⊆ suffixedChars) {quote : Char}
    (outside : quote ∉ suffixedChars) : Text.isDelimited [quote] text = false := by
  rw [Bool.eq_false_iff]
  intro delimited
  obtain ⟨body, whole⟩ := Text.isDelimited_iff.mp delimited
  exact outside (plain (by simp [whole]))

/-- A word with another letter does not consist of these characters. -/
theorem ne_of_subset (plain : text ⊆ suffixedChars) {word : List Char}
    (outside : word.any (!suffixedChars.contains ·)) : text ≠ word := by
  rintro rfl
  obtain ⟨c, member, other⟩ := List.any_eq_true.mp outside
  exact absurd (plain member) (by simpa using other)

/-- Among texts of these characters only integers and floats are literals. -/
theorem kindOfTrimmed?_of_subset (plain : text ⊆ suffixedChars) :
    kindOfTrimmed? text =
      if isInteger text then some .int else if isFloat text then some .float else none := by
  have string : isString text = false := by
    rw [isString, isDelimited_of_subset plain (by decide), isDelimited_of_subset plain (by decide),
      isDelimited_of_subset plain (by decide)]
    rfl
  have keyword : keywordKind? text = none := by
    unfold keywordKind?
    rw [if_neg, if_neg]
    · simp only [decide_eq_true_eq, Bool.or_eq_true, not_or]
      exact ⟨ne_of_subset plain rfl, ne_of_subset plain rfl⟩
    · simp only [decide_eq_true_eq, Bool.or_eq_true, not_or]
      exact ⟨⟨⟨ne_of_subset plain rfl, ne_of_subset plain rfl⟩, ne_of_subset plain rfl⟩,
        ne_of_subset plain rfl⟩
  have list : text.head? ≠ some '[' := by
    intro first
    exact absurd (plain (List.mem_of_mem_head? first)) (by decide)
  simp [kindOfTrimmed?, string, keyword, list]

/-- A text of these characters is in target form. -/
theorem inTargetForm_of_subset (plain : text ⊆ suffixedChars) : InTargetForm text where
  trimmed := by
    have solid : ∀ c ∈ suffixedChars, Text.isBlank c = false := by
      simp [suffixedChars, floatChars, Text.isBlank]
    apply Text.trim_eq_self
    · exact fun c first => solid c (plain (List.mem_of_mem_head? first))
    · exact fun c last => solid c (plain (List.mem_of_mem_getLast? last))
  notSingleQuoted := isDelimited_of_subset plain (by decide)
  notBackticked := isDelimited_of_subset plain (by decide)
  notKeyword keyword := by
    simp only [sourceKeywords, List.mem_cons, List.not_mem_nil, or_false] at keyword
    rcases keyword with same | same | same <;> exact ne_of_subset plain rfl same
  unlinked := by
    intro mark member
    have char : mark.char ∈ text := by
      rw [← Text.map_char_marks text]
      exact List.mem_map_of_mem member
    rw [Text.Mark.isCode, Bool.and_eq_false_iff, beq_eq_false_iff_ne]
    left
    intro link
    rw [link] at char
    exact absurd (plain char) (by decide)

/-- The suffix adds no other character. -/
theorem subset_suffixedChars (plain : text ⊆ floatChars) : text ++ ['f'] ⊆ suffixedChars :=
  List.append_subset.mpr ⟨List.subset_cons_of_subset 'f' plain, by simp [suffixedChars]⟩

/-- With the suffix a text is no literal. -/
theorem kind?_suffixed (plain : text ⊆ floatChars) : kind? (text ++ ['f']) = none := by
  have suffixed := subset_suffixedChars plain
  have ends : 'f' ∈ text ++ ['f'] := by simp
  have float : isFloat (text ++ ['f']) = false := by
    rw [Bool.eq_false_iff]
    intro accepted
    exact absurd ((isFloat_iff.mp accepted).subset_floatChars ends) (by decide)
  have integer : isInteger (text ++ ['f']) = false := by
    rw [Bool.eq_false_iff]
    intro accepted
    -- The suffix would be a digit, which it is only in a radix with a mark of its own.
    obtain ⟨sign, signed, whole⟩ := exists_sign (text ++ ['f'])
    rw [whole, List.mem_append] at ends
    rcases ends with member | member
    · exact absurd (mem_floatChars_of_sign signed 'f' member) (by decide)
    · exact absurd (digits_of_isInteger suffixed accepted 'f' member) (by decide)
  rw [kind?, (inTargetForm_of_subset suffixed).trimmed, kindOfTrimmed?_of_subset suffixed, integer,
    float]
  rfl

/-- A number without a type suffix gets one. -/
theorem withFloatSuffix_eq (plain : text ⊆ floatChars) :
    Value.withFloatSuffix text = text ++ ['f'] := by
  have bare : text.getLast?.any Value.isTypeSuffix = false := by
    have other : ∀ c ∈ floatChars, Value.isTypeSuffix c = false := by
      simp [floatChars, Value.isTypeSuffix]
    rcases ends : text.getLast? with _ | last
    · rfl
    · exact other last (plain (List.mem_of_getLast? ends))
  rw [Value.withFloatSuffix, bare, if_neg Bool.false_ne_true]

end Suffix

/-- The kind of a text is float exactly if it has the form of a float literal. -/
theorem kind?_eq_float_iff {text : List Char} :
    kind? text = some .float ↔ FloatForm (Text.trim text) := by
  constructor
  · intro kind
    rw [← isFloat_iff]
    have keyword : keywordKind? (Text.trim text) ≠ some .float := by
      unfold keywordKind?
      split_ifs <;> simp
    unfold kind? kindOfTrimmed? at kind
    split at kind
    · cases kind
    · split at kind
      · rename_i found
        rw [found] at keyword
        exact absurd kind keyword
      · split_ifs at kind with list integer float
        · cases kind
        · cases kind
        · exact float
  · intro form
    -- Integers are tried first, and accept no float.
    have float := isFloat_iff.mpr form
    have integer : isInteger (Text.trim text) = false := by
      rw [Bool.eq_false_iff]
      exact fun integer => not_isInteger_and_isFloat _ ⟨integer, float⟩
    rw [kind?, kindOfTrimmed?_of_subset (List.subset_cons_of_subset 'f' form.subset_floatChars),
      integer, float]
    rfl

/-- The values that are written as floats: float literals, and integers without the mark of a radix
where a float is stated. -/
inductive WrittenAsFloat (text : List Char) : Shape → Bool → Prop where
  | float (literal : kind? text = some .float) (floatContext : Bool) :
      WrittenAsFloat text (.literal .float) floatContext
  | integer (literal : kind? text = some .int) (decimal : isDecimalInteger (Text.trim text)) :
      WrittenAsFloat text (.literal .int) true

/-- Values that are written as floats have only characters that a float literal can have. -/
theorem WrittenAsFloat.subset_floatChars {text : List Char} {shape : Shape} {floatContext : Bool}
    (written : WrittenAsFloat text shape floatContext) : Text.trim text ⊆ floatChars := by
  cases written with
  | float literal => exact (kind?_eq_float_iff.mp literal).subset_floatChars
  | integer literal decimal => exact subset_floatChars_of_decimal decimal

/-- Values that are written as floats get the suffix. -/
theorem WrittenAsFloat.renderTrimmed_eq {text : List Char} {shape : Shape} {floatContext : Bool}
    (written : WrittenAsFloat text shape floatContext) (layout : Layout) :
    Value.renderTrimmed layout shape floatContext (Text.trim text) =
      Value.withFloatSuffix (Text.trim text) := by
  cases written with
  | float literal => rfl
  | integer literal decimal =>
    rw [Value.renderTrimmed, decimal]
    rfl

/-- Integers and floats are never mistaken for each other, and floats are the texts of their form.
Floats, and decimal integers where a float is stated, are written with one suffix at their end. That
is no literal any more, and as an expression it stays as it is. -/
theorem float_literals (text : List Char) :
    ¬(isInteger text ∧ isFloat text) ∧
      (kind? text = some .float ↔ FloatForm (Text.trim text)) ∧
      ∀ shape floatContext layout, WrittenAsFloat text shape floatContext →
        Value.render layout shape floatContext (String.ofList text) =
            String.ofList (Text.trim text ++ ['f']) ∧
          kind? (Text.trim text ++ ['f']) = none ∧
          ∀ context, Value.render layout .expression context
              (String.ofList (Text.trim text ++ ['f'])) =
            String.ofList (Text.trim text ++ ['f']) := by
  refine ⟨not_isInteger_and_isFloat text, kind?_eq_float_iff, ?_⟩
  intro shape floatContext layout written
  have plain := written.subset_floatChars
  have target := inTargetForm_of_subset (subset_suffixedChars plain)
  refine ⟨?_, kind?_suffixed plain, ?_⟩
  · rw [Value.render, String.toList_ofList, written.renderTrimmed_eq layout,
      withFloatSuffix_eq plain]
  · intro context
    rw [Value.render, String.toList_ofList, target.trimmed]
    exact congrArg String.ofList (target.code_eq layout)

/-- A float with underscores and an exponent, and an integer where a float is stated. -/
theorem float_literals_separated :
    FloatForm (Text.trim " -1_0.5_e+3 ".toList) ∧
      Value.render .compact (.literal .float) false " -1_0.5_e+3 " = "-1_0.5_e+3f" ∧
      Value.render .pretty .expression true "-1_0.5_e+3f" = "-1_0.5_e+3f" ∧
      kind? "1_000 ".toList = some .int ∧
      Value.render .compact (.literal .int) true "1_000 " = "1_000f" := by
  have float : kind? " -1_0.5_e+3 ".toList = some .float := by decide
  have integer : kind? "1_000 ".toList = some .int := by decide
  obtain ⟨-, form, written⟩ := float_literals " -1_0.5_e+3 ".toList
  refine ⟨form.mp float, ?_, ?_, integer, ?_⟩
  · exact (written _ false .compact (.float float false)).1
  · exact (written _ false .pretty (.float float false)).2.2 true
  · exact ((float_literals "1_000 ".toList).2.2 _ true .compact (.integer integer (by decide))).1

end Treescribe.Literal
