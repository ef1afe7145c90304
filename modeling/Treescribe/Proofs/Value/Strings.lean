import Treescribe.Proofs.Text.Literals
import Treescribe.Proofs.Value.Quotations
import Treescribe.Proofs.Value.SingleLines

/-!
# Strings by their outer quotes

Two readers decide what a string is. The kind of a text goes by its first and its last character
alone; a scan goes through the text and knows where its first literal ends. They agree exactly on
the texts whose body is sealed. Two literals in one text, such as the operands of an operator, are
therefore taken for one string, and one between single quotes is also written as one.
-/

namespace Treescribe.Literal

/-- A trimmed text is of the kind of strings exactly if it stands between two equal quotes. -/
theorem kindOfTrimmed?_eq_string_iff {text : List Char} :
    kindOfTrimmed? text = some .string ↔ isString text := by
  unfold kindOfTrimmed?
  split
  · rename_i string
    simp [string]
  · rename_i other
    have keyword : keywordKind? text ≠ some .string := by
      unfold keywordKind?
      split_ifs <;> simp
    split
    · rename_i kind found
      rw [found] at keyword
      simp [keyword, other]
    · split_ifs <;> simp [other]

variable {quote : Char} {text : List Char}

/-- A text between two equal quotes opens with that quote. -/
theorem eq_of_isDelimited {other : Char} (first : text.head? = some quote)
    (delimited : Text.isDelimited [other] text) : other = quote := by
  obtain ⟨body, rfl⟩ := Text.isDelimited_iff.mp delimited
  exact Option.some.inj first

/-- A text that opens with a quote is a string exactly if another one of its type ends it. -/
theorem isString_iff (opens : Text.isQuote quote) (first : text.head? = some quote) :
    isString text ↔ ∃ body, text = [quote] ++ body ++ [quote] := by
  rw [← Text.isDelimited_iff]
  constructor
  · intro string
    simp only [isString, Bool.or_eq_true] at string
    rcases string with (delimited | delimited) | delimited
    all_goals
      have same := eq_of_isDelimited first delimited
      rwa [same] at delimited
  · intro delimited
    simp only [Text.isQuote, Bool.or_eq_true, beq_iff_eq] at opens
    rcases opens with (rfl | rfl) | rfl <;> simp [isString, delimited]

/-- The kind of a text is that of the text without the white space around it. -/
theorem kind?_trim (text : List Char) : kind? (Text.trim text) = kind? text := by
  rw [kind?, Text.trim_trim, kind?]

/-- A literal is taken for one, whatever classes there are. -/
theorem classify_of_kind? {kind : LiteralKind} (found : kind? text = some kind)
    (classes : List String) :
    Shape.classify classes false (some (String.ofList text)) = .literal kind := by
  rw [Shape.classify_some, String.toList_ofList, Shape.ofTrimmed, kind?_trim, found]

/-- A text is written as it is without the white space around it. -/
theorem code_trim (layout : Layout) (text : List Char) :
    code layout (Text.trim text) = code layout text := by
  rw [code, Text.trim_trim, code]

/-- A text that opens with a double quote is written with its links as dots and as it is else. -/
theorem codeOfTrimmed_doubleQuote (first : text.head? = some '"') (layout : Layout) :
    codeOfTrimmed layout text = Text.dotLinks text := by
  obtain ⟨rest, rfl⟩ := List.head?_eq_some_iff.mp first
  simp [codeOfTrimmed, codeOfWord, Text.isDelimited, tripleBacktick]

/-- The kind of a text that opens with a single or a double quote goes by its last character. That
is where the scan sees its first literal closed exactly if what stands between is sealed. If it is
not, the text is a string all the same; between single quotes it is written as one. -/
theorem string_by_outer_quotes (single : quote = '\'' ∨ quote = '"')
    (first : (Text.trim text).head? = some quote) :
    (kind? text = some .string ↔ ∃ body, Text.trim text = [quote] ++ body ++ [quote]) ∧
      ((kind? text = some .string ↔
          Text.closing? (Text.trim text) = some ((Text.trim text).length - 1)) ↔
        ∀ body, Text.trim text = [quote] ++ body ++ [quote] → Text.isSealed quote body) ∧
      ∀ body, Text.trim text = [quote] ++ body ++ [quote] →
        (∀ classes, Shape.classify classes false (some (String.ofList text)) = .literal .string) ∧
          ∀ layout, code layout text =
            if quote = '\'' then doubleQuoted body else Text.dotLinks (Text.trim text) := by
  have opens : Text.isQuote quote := by
    rcases single with rfl | rfl <;> decide
  have string : kind? text = some .string ↔
      ∃ body, Text.trim text = [quote] ++ body ++ [quote] := by
    rw [kind?, kindOfTrimmed?_eq_string_iff, isString_iff opens first]
  refine ⟨string, ?_, ?_⟩
  · rw [string, Text.closing?_eq_last_iff opens first]
    constructor
    · intro agree body whole
      obtain ⟨inner, same, closed⟩ := agree.mp ⟨body, whole⟩
      have equal : body = inner := by simpa using whole.symm.trans same
      rwa [equal]
    · intro closed
      constructor
      · rintro ⟨body, whole⟩
        exact ⟨body, whole, closed body whole⟩
      · rintro ⟨body, whole, -⟩
        exact ⟨body, whole⟩
  · intro body whole
    refine ⟨classify_of_kind? (string.mpr ⟨body, whole⟩), fun layout => ?_⟩
    rcases single with rfl | rfl
    · have simple : Text.isDelimited tripleBacktick (['\''] ++ body ++ ['\'']) = false := by
        simp [Text.isDelimited, tripleBacktick]
      rw [if_pos rfl, ← code_trim, whole, code_quoted (.inl rfl) simple]
    · rw [if_neg (by decide), code, codeOfTrimmed_doubleQuote first]

/-- An escaped quote does not end a string, for the scan and for the kind. -/
theorem string_by_outer_quotes_escaped :
    (Text.trim " 'it\\'s' ".toList).head? = some '\'' ∧
      kind? " 'it\\'s' ".toList = some .string ∧
      Text.closing? (Text.trim " 'it\\'s' ".toList) = some 6 := by
  have first : (Text.trim " 'it\\'s' ".toList).head? = some '\'' := by decide
  obtain ⟨string, agree, -⟩ := string_by_outer_quotes (.inl rfl) first
  have whole : Text.trim " 'it\\'s' ".toList = ['\''] ++ "it\\'s".toList ++ ['\''] := by decide
  have kind := string.mpr ⟨_, whole⟩
  refine ⟨first, kind, (agree.mpr ?_).mp kind⟩
  intro body same
  have inner := List.append_cancel_left (List.append_cancel_right (whole.symm.trans same))
  rw [← inner]
  decide

/-- Two strings joined by an operator are taken for one: the first is closed at once, but the text
ends with a quote. -/
theorem joined_strings_taken_for_one :
    ¬(kind? "'a' + 'b'".toList = some .string ↔
        Text.closing? (Text.trim "'a' + 'b'".toList) =
          some ((Text.trim "'a' + 'b'".toList).length - 1)) ∧
      Text.closing? "'a' + 'b'".toList = some 2 ∧
      Shape.classify [] false (some "'a' + 'b'") = .literal .string ∧
      code .compact "'a' + 'b'".toList = "\"a' + 'b\"".toList := by
  decide

end Treescribe.Literal
