import Treescribe.Proofs.Text.Trimming
import Treescribe.Session.Condition

/-!
# Conditions between keyword and brace

The text of a branch may be its condition alone, or the condition with a keyword in front of it and
braces behind it, with white space anywhere between. The same condition comes out of all these
texts. No keyword is the start of another one of its list, so the order of a list does not matter,
and white space is no part of a word, so a keyword that white space follows is read as one.
-/

namespace Treescribe.Text

/-- The code point ranges of white space. -/
def blankRanges : List (Nat × Nat) := [
  (9, 13), (0x20, 0x20), (0x85, 0x85), (0xA0, 0xA0), (0x1680, 0x1680), (0x2000, 0x200A),
  (0x2028, 0x2029), (0x202F, 0x202F), (0x205F, 0x205F), (0x3000, 0x3000)]

/-- White space lies in one of its ranges. -/
theorem exists_blankRange {c : Char} (blank : isBlank c) :
    ∃ range ∈ blankRanges, range.1 ≤ c.toNat ∧ c.toNat ≤ range.2 := by
  simp only [isBlank, Bool.or_eq_true, Bool.and_eq_true, decide_eq_true_eq, beq_iff_eq] at blank
  simp only [blankRanges, List.mem_cons, List.not_mem_nil, or_false, exists_eq_or_imp,
    exists_eq_left]
  omega

/-- The ranges of white space and those of alphanumeric characters do not meet. -/
theorem ranges_apart :
    alphanumericRanges.all fun range => blankRanges.all fun blank =>
      Nat.blt range.2 blank.1 || Nat.blt blank.2 range.1 := by
  decide +kernel

/-- White space is no part of a word. -/
theorem isWordChar_of_isBlank {c : Char} (blank : isBlank c) : isWordChar c = false := by
  obtain ⟨gap, gapMem, low, high⟩ := exists_blankRange blank
  have alphanumeric : isAlphanumeric c = false := by
    rw [isAlphanumeric, List.any_eq_false]
    intro range rangeMem
    have apart := List.all_eq_true.mp (List.all_eq_true.mp ranges_apart range rangeMem) gap gapMem
    simp only [Bool.or_eq_true, Nat.blt_eq] at apart
    simp only [Bool.and_eq_true, decide_eq_true_eq]
    omega
  have underscore : c ≠ '_' := by
    rintro rfl
    exact absurd blank (by decide)
  simp [isWordChar, alphanumeric, underscore]

end Treescribe.Text

namespace Treescribe.Condition

/-- A text opens with a keyword if the keyword is a whole word there. -/
def OpensWith (keyword : String) (text : List Char) : Prop :=
  ∃ rest, text = keyword.toList ++ rest ∧ ∀ c ∈ rest.head?, Text.isWordChar c = false

/-- A keyword is taken off where a text opens with it, and nowhere else. -/
theorem behind?_eq_some_iff {keyword : String} {text rest : List Char} :
    behind? text keyword = some rest ↔
      text = keyword.toList ++ rest ∧ ∀ c ∈ rest.head?, Text.isWordChar c = false := by
  have boundary (later : List Char) : later.head?.any Text.isWordChar = false ↔
      ∀ c ∈ later.head?, Text.isWordChar c = false := by
    cases later <;> simp
  unfold behind?
  split
  · rename_i missing
    constructor
    · rintro ⟨⟩
    · rintro ⟨whole, -⟩
      rw [List.isPrefixOf?_eq_some_iff_append_eq.mpr whole.symm] at missing
      cases missing
  · rename_i later cut
    rw [List.isPrefixOf?_eq_some_iff_append_eq] at cut
    rw [← cut, List.append_cancel_left_eq, ← boundary]
    split
    · rename_i joined
      constructor
      · rintro ⟨⟩
      · rintro ⟨rfl, apart⟩
        simp [joined] at apart
    · rename_i apart
      constructor
      · rintro ⟨⟩
        exact ⟨rfl, Bool.eq_false_iff.mpr apart⟩
      · rintro ⟨rfl, -⟩
        rfl

instance (keyword : String) (text : List Char) : Decidable (OpensWith keyword text) :=
  decidable_of_iff (behind? text keyword).isSome <| by
    simp only [Option.isSome_iff_exists, behind?_eq_some_iff, OpensWith]

/-- A text that opens with no keyword is kept. -/
theorem withoutKeyword_eq_self {keywords : List String} {text : List Char}
    (bare : ∀ keyword ∈ keywords, ¬OpensWith keyword text) :
    withoutKeyword keywords text = text := by
  have missing : keywords.findSome? (behind? text) = none := by
    rw [List.findSome?_eq_none_iff]
    intro keyword member
    rw [Option.eq_none_iff_forall_ne_some]
    intro rest found
    exact bare keyword member ⟨rest, behind?_eq_some_iff.mp found⟩
  rw [withoutKeyword, missing, Option.getD_none]

/-- Keywords that can be told apart: none is the start of another one, and there is no white space
around them. -/
structure Distinct (keywords : List String) : Prop where
  apart : ∀ keyword ∈ keywords, ∀ other ∈ keywords,
    keyword.toList <+: other.toList → keyword = other
  trimmed : ∀ keyword ∈ keywords, Text.trim keyword.toList = keyword.toList
  nonempty : ∀ keyword ∈ keywords, keyword.toList ≠ []

/-- The keywords of an `if` branch can be told apart. -/
theorem distinct_ifKeywords : Distinct ifKeywords :=
  ⟨by decide, by decide, by decide⟩

/-- The keywords of an `else if` branch can be told apart. -/
theorem distinct_elseIfKeywords : Distinct elseIfKeywords :=
  ⟨by decide, by decide, by decide⟩

/-- Of the keywords only the one that a text opens with is taken off. -/
theorem withoutKeyword_append {keywords : List String} (distinct : Distinct keywords)
    {keyword : String} (member : keyword ∈ keywords) {rest : List Char}
    (boundary : ∀ c ∈ rest.head?, Text.isWordChar c = false) :
    withoutKeyword keywords (keyword.toList ++ rest) = rest := by
  have own : behind? (keyword.toList ++ rest) keyword = some rest :=
    behind?_eq_some_iff.mpr ⟨rfl, boundary⟩
  cases found : keywords.findSome? (behind? (keyword.toList ++ rest)) with
  | none =>
    rw [List.findSome?_eq_none_iff.mp found keyword member] at own
    cases own
  | some later =>
    -- The first keyword that is found is the own one, for two starts of one text are comparable.
    obtain ⟨first, firstMem, cut⟩ := List.exists_of_findSome?_eq_some found
    have starts : first.toList <+: keyword.toList ++ rest :=
      ⟨later, (behind?_eq_some_iff.mp cut).1.symm⟩
    have same : first = keyword := by
      rcases List.prefix_or_prefix_of_prefix starts (List.prefix_append _ rest) with short | long
      · exact distinct.apart first firstMem keyword member short
      · exact (distinct.apart keyword member first firstMem long).symm
    rw [same, own] at cut
    rw [withoutKeyword, found, Option.getD_some]
    exact (Option.some.inj cut).symm

/-- What stands around a keyword and the condition behind it: white space in front of them, between
them and behind them, and then braces, with white space behind these. -/
structure Surroundings where
  lead : List Char
  gap : List Char
  pad : List Char
  braces : List Char
  trail : List Char
  leadBlank : ∀ c ∈ lead, Text.isBlank c
  gapBlank : ∀ c ∈ gap, Text.isBlank c
  padBlank : ∀ c ∈ pad, Text.isBlank c
  braced : ∀ c ∈ braces, c = '\x7b'
  trailBlank : ∀ c ∈ trail, Text.isBlank c

namespace Surroundings

variable (around : Surroundings) {condition : List Char}

/-- The part behind the keyword, up to the braces. -/
def behind (condition : List Char) : List Char :=
  around.gap ++ condition ++ around.pad ++ around.braces

/-- The whole text of a branch. -/
def text (keyword condition : List Char) : List Char :=
  around.lead ++ keyword ++ around.gap ++ condition ++ around.pad ++ around.braces ++ around.trail

/-- The text of a branch is its keyword and the part behind it, with white space around them. -/
theorem text_eq (keyword condition : List Char) :
    around.text keyword condition =
      around.lead ++ (keyword ++ around.behind condition) ++ around.trail := by
  simp [text, behind]

/-- A keyword in front of white space is a whole word, and so is one in front of a condition that
does not go on with letters. -/
theorem boundary_behind
    (boundary : around.gap ≠ [] ∨ ∀ c ∈ condition.head?, Text.isWordChar c = false) :
    ∀ c ∈ (around.behind condition).head?, Text.isWordChar c = false := by
  intro c first
  simp only [behind, List.head?_append, Option.mem_def, Option.or_eq_some_iff] at first
  rcases first with ((first | ⟨joined, first⟩) | ⟨-, first⟩) | ⟨-, first⟩
  · exact Text.isWordChar_of_isBlank (around.gapBlank c (List.mem_of_mem_head? first))
  · exact boundary.resolve_left (by simpa using joined) c first
  · exact Text.isWordChar_of_isBlank (around.padBlank c (List.mem_of_mem_head? first))
  · rw [around.braced c (List.mem_of_mem_head? first)]
    decide +kernel

/-- Without the white space at its end a text has the same form: there may be less white space
around the condition. -/
theorem exists_rdropWhile_behind (trimmed : Text.trim condition = condition) :
    ∃ less : Surroundings,
      (around.behind condition).rdropWhile Text.isBlank = less.behind condition := by
  by_cases plain : around.braces = []
  · have unpadded : (around.behind condition).rdropWhile Text.isBlank =
        (around.gap ++ condition).rdropWhile Text.isBlank := by
      rw [behind, plain, List.append_nil, Text.rdropWhile_append around.padBlank]
    rw [unpadded]
    by_cases empty : condition = []
    · refine ⟨⟨[], [], [], [], [], by simp, by simp, by simp, by simp, by simp⟩, ?_⟩
      rw [empty, List.append_nil, List.rdropWhile_eq_nil_iff.mpr around.gapBlank]
      rfl
    · refine ⟨⟨[], around.gap, [], [], [], by simp, around.gapBlank, by simp, by simp, by simp⟩, ?_⟩
      have solid := (Text.trim_ends condition).2
      rw [trimmed, ← List.getLast?_append_of_ne_nil around.gap empty] at solid
      rw [Text.rdropWhile_eq_self solid, behind, List.append_nil, List.append_nil]
  · refine ⟨around, Text.rdropWhile_eq_self ?_⟩
    intro c last
    rw [behind, List.getLast?_append_of_ne_nil _ plain] at last
    rw [around.braced c (List.mem_of_mem_getLast? last)]
    decide

/-- Neither a condition nor the white space around it ends with a brace. -/
theorem rdropWhile_brace (unbraced : condition.getLast? ≠ some '\x7b') :
    (around.behind condition).rdropWhile (· == '\x7b') =
      around.gap ++ condition ++ around.pad := by
  have solid : ¬Text.isBlank '\x7b' := by decide
  rw [behind, Text.rdropWhile_append fun c member => beq_iff_eq.mpr (around.braced c member)]
  apply Text.rdropWhile_eq_self
  intro c last
  rw [beq_eq_false_iff_ne]
  rintro rfl
  simp only [List.getLast?_append, Option.mem_def, Option.or_eq_some_iff] at last
  rcases last with last | ⟨-, last | ⟨-, last⟩⟩
  · exact solid (around.padBlank _ (List.mem_of_getLast? last))
  · exact unbraced last
  · exact solid (around.gapBlank _ (List.mem_of_getLast? last))

/-- A text that starts and ends with its keyword is trimmed behind it only. -/
theorem trim_text {keyword : List Char} (trimmed : Text.trim keyword = keyword)
    (nonempty : keyword ≠ []) :
    Text.trim (around.text keyword condition) =
      keyword ++ (around.behind condition).rdropWhile Text.isBlank := by
  have solid := Text.trim_ends keyword
  rw [trimmed] at solid
  have starts : ∀ c ∈ (keyword ++ around.behind condition).head?, Text.isBlank c = false := by
    rw [List.head?_append_of_ne_nil _ nonempty]
    exact solid.1
  rw [text_eq, Text.trim_surrounded around.leadBlank around.trailBlank,
    Text.trim_eq_rdropWhile starts, Text.append_rdropWhile solid.2]

end Surroundings

/-- A condition comes out of the text of a branch as it was put into it. -/
theorem code_text {keywords : List String} (distinct : Distinct keywords) {keyword : String}
    (member : keyword ∈ keywords) {condition : List Char}
    (trimmed : Text.trim condition = condition) (unbraced : condition.getLast? ≠ some '\x7b')
    (around : Surroundings)
    (boundary : around.gap ≠ [] ∨ ∀ c ∈ condition.head?, Text.isWordChar c = false) :
    code keywords (String.ofList (around.text keyword.toList condition)) =
      String.ofList condition := by
  obtain ⟨less, rest⟩ := around.exists_rdropWhile_behind trimmed
  have whole : ∀ c ∈ (less.behind condition).head?, Text.isWordChar c = false := by
    intro c first
    obtain ⟨dropped, parts⟩ := List.rdropWhile_prefix Text.isBlank (around.behind condition)
    apply around.boundary_behind boundary c
    rw [← parts, rest, List.head?_append, Option.mem_def.mp first]
    rfl
  have bare : withoutKeyword keywords (Text.trim (around.text keyword.toList condition)) =
      less.behind condition := by
    rw [around.trim_text (distinct.trimmed keyword member) (distinct.nonempty keyword member), rest]
    exact withoutKeyword_append distinct member whole
  have ends : Text.dropEnd (· == '\x7b') (less.behind condition) =
      less.gap ++ condition ++ less.pad := less.rdropWhile_brace unbraced
  rw [code, String.toList_ofList, bare, ends, Text.trim_surrounded less.gapBlank less.padBlank,
    trimmed]

/-- A condition alone is kept. -/
theorem code_alone {keywords : List String} {condition : List Char}
    (trimmed : Text.trim condition = condition) (unbraced : condition.getLast? ≠ some '\x7b')
    (bare : ∀ keyword ∈ keywords, ¬OpensWith keyword condition) :
    code keywords (String.ofList condition) = String.ofList condition := by
  have ends : Text.dropEnd (· == '\x7b') condition = condition := by
    apply Text.rdropWhile_eq_self
    rintro c last
    rw [beq_eq_false_iff_ne]
    rintro rfl
    exact unbraced last
  rw [code, String.toList_ofList, trimmed, withoutKeyword_eq_self bare, ends, trimmed]

/-- A condition is kept, alone and behind any of the keywords of its branch: there may be white
space around it and braces behind it, and white space must separate it from the keyword if it goes
on with letters. -/
theorem condition_recovered {keywords : List String}
    (stated : keywords = ifKeywords ∨ keywords = elseIfKeywords) {condition : List Char}
    (trimmed : Text.trim condition = condition) (unbraced : condition.getLast? ≠ some '\x7b')
    (bare : ∀ keyword ∈ keywords, ¬OpensWith keyword condition) :
    code keywords (String.ofList condition) = String.ofList condition ∧
      ∀ keyword ∈ keywords, ∀ around : Surroundings,
        (around.gap ≠ [] ∨ ∀ c ∈ condition.head?, Text.isWordChar c = false) →
          code keywords (String.ofList (around.text keyword.toList condition)) =
            String.ofList condition := by
  have distinct : Distinct keywords := by
    rcases stated with rfl | rfl
    · exact distinct_ifKeywords
    · exact distinct_elseIfKeywords
  refine ⟨code_alone trimmed unbraced bare, ?_⟩
  intro keyword member around boundary
  exact code_text distinct member trimmed unbraced around boundary

/-- White space wherever it may be, and two braces. -/
def spacious : Surroundings where
  lead := [' ']
  gap := ['\t', ' ']
  pad := [' ']
  braces := ['\x7b', '\x7b']
  trail := ['\n']
  leadBlank := List.all_eq_true.mp rfl
  gapBlank := List.all_eq_true.mp rfl
  padBlank := List.all_eq_true.mp rfl
  braced := by simp
  trailBlank := List.all_eq_true.mp rfl

/-- No white space at all, and one brace. -/
def narrow : Surroundings where
  lead := []
  gap := []
  pad := []
  braces := ['\x7b']
  trail := []
  leadBlank := by simp
  gapBlank := by simp
  padBlank := by simp
  braced := by simp
  trailBlank := by simp

/-- A name that starts like a keyword and stands behind that keyword; and a parenthesis that stands
right behind another one. -/
theorem condition_recovered_elifs :
    code elseIfKeywords "elifs > é" = "elifs > é" ∧
      code elseIfKeywords " elif\t elifs > é \x7b\x7b\n" = "elifs > é" ∧
      code ifKeywords "if(iff)\x7b" = "(iff)" := by
  have trimmed : Text.trim "elifs > é".toList = "elifs > é".toList := by decide
  obtain ⟨alone, behind⟩ := condition_recovered (.inr rfl) trimmed (by decide) (by decide +kernel)
  have joined : Text.trim "(iff)".toList = "(iff)".toList := by decide
  obtain ⟨-, tight⟩ := condition_recovered (.inl rfl) joined (by decide) (by decide +kernel)
  refine ⟨alone, behind "elif" (by decide) spacious (.inl (by decide)), ?_⟩
  apply tight "if" (by decide) narrow
  right
  rintro c ⟨⟩
  decide +kernel

end Treescribe.Condition
