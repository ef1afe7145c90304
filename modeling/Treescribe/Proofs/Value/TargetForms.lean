import Treescribe.Proofs.Text.Links
import Treescribe.Proofs.Text.Literals
import Treescribe.Proofs.Value.Quotations

/-!
# Texts in target form

What a text has to be for rewriting to leave it alone. Every text is rewritten into such a form,
verbatim strings apart, and so is rewritten only once: a string in double quotes is one literal for
the scan, whose links are out of reach, and an expression keeps its quotes and its words.
-/

namespace Treescribe.Literal

/-- The keywords whose target spelling is another one. -/
def sourceKeywords : List (List Char) :=
  ["True".toList, "False".toList, "None".toList]

/-- A text in target form: no white space around it, no string of the source, no keyword in the
source's spelling, and no link in code. -/
structure InTargetForm (text : List Char) : Prop where
  trimmed : Text.trim text = text
  notSingleQuoted : Text.isDelimited ['\''] text = false
  notBackticked : Text.isDelimited ['\x60'] text = false
  notKeyword : text ∉ sourceKeywords
  unlinked : ∀ mark ∈ Text.marks text, mark.isCode '@' = false

/-- Triple backticks are backticks. -/
theorem isDelimited_backtick_of_triple {text : List Char}
    (delimited : Text.isDelimited tripleBacktick text) : Text.isDelimited ['\x60'] text := by
  obtain ⟨body, rfl⟩ := Text.isDelimited_iff.mp delimited
  exact Text.isDelimited_iff.mpr ⟨['\x60', '\x60'] ++ body ++ ['\x60', '\x60'], by
    simp [tripleBacktick]⟩

/-- A word other than the keywords is written with its links as dots. -/
theorem codeOfWord_of_not_mem {text : List Char} (other : text ∉ sourceKeywords) :
    codeOfWord text = Text.dotLinks text := by
  simp only [sourceKeywords, List.mem_cons, List.not_mem_nil, or_false, not_or] at other
  rw [codeOfWord, if_neg other.1, if_neg other.2.1, if_neg other.2.2]

/-- A text in target form is written as it is. -/
theorem InTargetForm.code_eq {text : List Char} (target : InTargetForm text) (layout : Layout) :
    code layout text = text := by
  have simple : ¬Text.isDelimited tripleBacktick text := by
    intro delimited
    exact absurd (isDelimited_backtick_of_triple delimited) (by simp [target.notBackticked])
  rw [code, target.trimmed, codeOfTrimmed, if_neg simple, target.notSingleQuoted,
    target.notBackticked]
  exact (codeOfWord_of_not_mem target.notKeyword).trans (Text.dotLinks_eq_self target.unlinked)

/-- An escaped body leaves the double quotes around it open. -/
theorem isSealed_escapeWith (body : List Char) : Text.isSealed '"' (escapeWith '\\' body) := by
  induction body with
  | nil => rfl
  | cons c rest inductionHypothesis =>
    by_cases special : c = '"' ∨ c = '\\'
    · have escaped : escapeWith '\\' (c :: rest) = '\\' :: c :: escapeWith '\\' rest := by
        simp [escapeWith, special]
      rw [escaped]
      exact inductionHypothesis
    · have kept : escapeWith '\\' (c :: rest) = c :: escapeWith '\\' rest := by
        simp [escapeWith, special]
      rw [not_or] at special
      simp [kept, Text.isSealed_cons special.2, special.1, inductionHypothesis]

/-- A double-quoted string is in target form. -/
theorem inTargetForm_doubleQuoted (body : List Char) : InTargetForm (doubleQuoted body) := by
  have delimited := Text.isDelimited_between ['"'] (escapeWith '\\' body)
  rw [doubleQuoted_eq]
  refine ⟨Text.trim_of_isDelimited delimited (by decide), ?_, ?_, ?_, ?_⟩
  · simp [Text.isDelimited]
  · simp [Text.isDelimited]
  · simp [sourceKeywords]
  · rw [Text.marks_literal (by decide) (isSealed_escapeWith body)]
    intro mark member
    rcases List.mem_cons.mp member with rfl | inside
    · rfl
    · obtain ⟨c, -, rfl⟩ := List.mem_map.mp inside
      simp [Text.Mark.isCode]

/-- A keyword is written in its target spelling. -/
theorem inTargetForm_of_keyword {text : List Char} (keyword : text ∈ sourceKeywords) :
    InTargetForm (codeOfWord text) := by
  simp only [sourceKeywords, List.mem_cons, List.not_mem_nil, or_false] at keyword
  rcases keyword with rfl | rfl | rfl <;>
    exact ⟨by decide, by decide, by decide, by decide, by decide⟩

/-- An expression is in target form once its links are dots. -/
theorem inTargetForm_dotLinks {text : List Char}
    (notSingleQuoted : Text.isDelimited ['\''] (Text.trim text) = false)
    (notBackticked : Text.isDelimited ['\x60'] (Text.trim text) = false)
    (notKeyword : Text.trim text ∉ sourceKeywords) :
    InTargetForm (Text.dotLinks (Text.trim text)) := by
  refine ⟨Text.trim_dotLinks_trim text, ?_, ?_, ?_, fun mark => Text.isCode_of_mem_marks_dotLinks⟩
  · rwa [Text.isDelimited_dotLinks (by decide)]
  · rwa [Text.isDelimited_dotLinks (by decide)]
  · intro keyword
    have plain : ∀ word ∈ sourceKeywords, '@' ∉ word ∧ '.' ∉ word := by decide
    rw [(Text.dotLinks_eq_iff (plain _ keyword)).mp rfl] at notKeyword
    exact notKeyword keyword

/-- Every text but a verbatim string is written in target form. -/
theorem inTargetForm_code {text : List Char}
    (plain : Text.isDelimited tripleBacktick (Text.trim text) = false) (layout : Layout) :
    InTargetForm (code layout text) := by
  rw [code, codeOfTrimmed, plain, if_neg Bool.false_ne_true]
  split
  · exact inTargetForm_doubleQuoted _
  · rename_i unquoted
    rw [Bool.not_eq_true, Bool.or_eq_false_iff] at unquoted
    by_cases keyword : Text.trim text ∈ sourceKeywords
    · exact inTargetForm_of_keyword keyword
    · rw [codeOfWord_of_not_mem keyword]
      exact inTargetForm_dotLinks unquoted.1 unquoted.2 keyword

/-- Rewriting brings every text but a verbatim string into target form, and a second time changes
nothing. -/
theorem code_idempotent {text : List Char}
    (plain : Text.isDelimited tripleBacktick (Text.trim text) = false) (layout : Layout) :
    InTargetForm (code layout text) ∧ code layout (code layout text) = code layout text := by
  have target := inTargetForm_code plain layout
  exact ⟨target, target.code_eq layout⟩

/-- A link in code and one in a string: the first becomes a dot, and both then stay. -/
theorem code_idempotent_links :
    Text.isDelimited tripleBacktick (Text.trim " a@b + 'c@d' + e ".toList) = false ∧
      code .compact " a@b + 'c@d' + e ".toList = "a.b + 'c@d' + e".toList ∧
      code .compact (code .compact " a@b + 'c@d' + e ".toList) =
        code .compact " a@b + 'c@d' + e ".toList :=
  ⟨by decide, by decide, (code_idempotent (by decide) .compact).2⟩

end Treescribe.Literal
