import Mathlib.Data.List.DropRight
import Treescribe.Text.Blank
import Treescribe.Text.Cut

/-!
# Trimmed texts

Trimming takes the white space off both ends of a text and nothing else: a text that starts and
ends with other characters stays as it is, and trimming twice is trimming once.
-/

namespace Treescribe.Text

/-- Only white space is trimmed away. -/
theorem mem_trim {c : Char} {text : List Char} (member : c ∈ text) (solid : isBlank c = false) :
    c ∈ trim text := by
  have parts : text = text.takeWhile isBlank ++
      (trim text ++ (text.dropWhile isBlank).rtakeWhile isBlank) := by
    have ends : trim text = (text.dropWhile isBlank).rdropWhile isBlank := rfl
    rw [ends, List.rdropWhile_append_rtakeWhile, List.takeWhile_append_dropWhile]
  rw [parts, List.mem_append, List.mem_append] at member
  rcases member with start | kept | trailing
  · simp [List.mem_takeWhile_imp start] at solid
  · exact kept
  · simp [List.mem_rtakeWhile_imp trailing] at solid

/-- Nothing is left of a text exactly if it is blank. -/
theorem trim_eq_nil_iff {text : List Char} : trim text = [] ↔ ∀ c ∈ text, isBlank c := by
  constructor
  · intro nothing c member
    by_contra solid
    have kept := mem_trim member (by simpa using solid)
    simp [nothing] at kept
  · intro blank
    have ends : trim text = (text.dropWhile isBlank).rdropWhile isBlank := rfl
    rw [ends, List.rdropWhile_eq_nil_iff]
    intro c member
    exact blank c ((List.dropWhile_suffix isBlank).subset member)

/-- White space at the start of a text is not missed. -/
theorem trim_cons_of_blank {c : Char} (blank : isBlank c) (text : List Char) :
    trim (c :: text) = trim text := by
  rw [trim, dropStart, List.dropWhile_cons_of_pos blank]
  rfl

/-- A text that starts with another character than white space is trimmed at its end only. -/
theorem trim_eq_rdropWhile {text : List Char} (start : ∀ c ∈ text.head?, isBlank c = false) :
    trim text = text.rdropWhile isBlank := by
  have kept : text.dropWhile isBlank = text := by
    cases text with
    | nil => rfl
    | cons c rest => exact List.dropWhile_cons_of_neg (by simp [start c rfl])
  rw [trim, dropStart, kept]
  rfl

/-- A text that starts with another character than white space starts with its trimmed form. -/
theorem trim_prefix_self {text : List Char} (start : ∀ c ∈ text.head?, isBlank c = false) :
    trim text <+: text := by
  rw [trim_eq_rdropWhile start]
  exact List.rdropWhile_prefix isBlank text

/-- Nothing is dropped from a text whose last character stays. -/
theorem rdropWhile_eq_self {drops : Char → Bool} {text : List Char}
    (ends : ∀ c ∈ text.getLast?, drops c = false) : text.rdropWhile drops = text := by
  rw [List.rdropWhile_eq_self_iff]
  intro nonempty
  simp [ends _ (List.getLast?_eq_some_getLast nonempty)]

/-- A text that starts and ends with other characters than white space stays as it is. -/
theorem trim_eq_self {text : List Char} (start : ∀ c ∈ text.head?, isBlank c = false)
    (ends : ∀ c ∈ text.getLast?, isBlank c = false) : trim text = text := by
  rw [trim_eq_rdropWhile start, rdropWhile_eq_self ends]

/-- A part in front of a text is not trimmed away from it unless the part can be trimmed itself. -/
theorem prefix_trim {text part : List Char} (start : ∀ c ∈ text.head?, isBlank c = false)
    (solid : ∀ c ∈ part.getLast?, isBlank c = false) (within : part <+: text) :
    part <+: trim text := by
  rcases List.prefix_or_prefix_of_prefix within (trim_prefix_self start) with short | long
  · exact short
  · -- What the part has more would stand in the white space at the end of the text.
    obtain ⟨more, rfl⟩ := long
    rw [trim_eq_rdropWhile start] at within ⊢
    have trailing : more <+: text.rtakeWhile isBlank := by
      rw [← List.prefix_append_right_inj (text.rdropWhile isBlank),
        List.rdropWhile_append_rtakeWhile]
      exact within
    rcases List.eq_nil_or_concat more with rfl | ⟨front, c, rfl⟩
    · simp
    · have blank : isBlank c := List.mem_rtakeWhile_imp (trailing.subset (by simp))
      simp [solid c (by simp)] at blank

/-- A text between delimiters that are no white space has no white space to trim. -/
theorem trim_of_isDelimited {first : Char} {delimiter text : List Char}
    (delimited : isDelimited (first :: delimiter) text)
    (solid : (first :: delimiter).any isBlank = false) : trim text = text := by
  simp only [isDelimited, Bool.and_eq_true, List.isPrefixOf_iff_prefix,
    List.isSuffixOf_iff_suffix] at delimited
  obtain ⟨⟨-, behind, starts⟩, before, ends⟩ := delimited
  have shown : ∀ c ∈ first :: delimiter, isBlank c = false := by
    simpa [List.any_eq_false] using solid
  apply trim_eq_self
  · rw [← starts]
    rintro c ⟨⟩
    exact shown first (by simp)
  · rw [← ends, List.getLast?_append_of_ne_nil _ (List.cons_ne_nil first delimiter)]
    exact fun c last => shown c (List.mem_of_mem_getLast? last)

/-- Characters that are dropped at the end of a text are dropped behind it. -/
theorem rdropWhile_append {drops : Char → Bool} {trail : List Char} (all : ∀ c ∈ trail, drops c)
    (text : List Char) : (text ++ trail).rdropWhile drops = text.rdropWhile drops := by
  rw [List.rdropWhile, List.reverse_append, List.dropWhile_append_of_pos (by simpa using all)]
  rfl

/-- A text whose last character is not dropped keeps its place in front of another one. -/
theorem append_rdropWhile {drops : Char → Bool} {text : List Char}
    (ends : ∀ c ∈ text.getLast?, drops c = false) (behind : List Char) :
    (text ++ behind).rdropWhile drops = text ++ behind.rdropWhile drops := by
  induction behind using List.reverseRecOn with
  | nil => rw [List.append_nil, List.rdropWhile_nil, List.append_nil, rdropWhile_eq_self ends]
  | append_singleton front c inductionHypothesis =>
    rw [← List.append_assoc, List.rdropWhile_concat, List.rdropWhile_concat, inductionHypothesis]
    split_ifs
    · rfl
    · rw [List.append_assoc]

/-- White space around a text does not count. -/
theorem trim_surrounded {lead trail : List Char} (before : ∀ c ∈ lead, isBlank c)
    (behind : ∀ c ∈ trail, isBlank c) (text : List Char) :
    trim (lead ++ text ++ trail) = trim text := by
  have front : trim (lead ++ text ++ trail) = trim (text ++ trail) := by
    rw [trim, trim, dropStart, dropStart, List.append_assoc, List.dropWhile_append_of_pos before]
  have whole : trim (text ++ trail) = ((text ++ trail).dropWhile isBlank).rdropWhile isBlank := rfl
  have ends : trim text = (text.dropWhile isBlank).rdropWhile isBlank := rfl
  rw [front, whole, ends, List.dropWhile_append]
  split
  · rename_i nothing
    rw [List.isEmpty_iff.mp nothing, List.rdropWhile_nil, List.rdropWhile_eq_nil_iff]
    intro c member
    exact behind c ((List.dropWhile_suffix isBlank).subset member)
  · exact rdropWhile_append behind _

/-- A trimmed text starts and ends with other characters than white space. -/
theorem trim_ends (text : List Char) :
    (∀ c ∈ (trim text).head?, isBlank c = false) ∧
      ∀ c ∈ (trim text).getLast?, isBlank c = false := by
  have ends : trim text = (text.dropWhile isBlank).rdropWhile isBlank := rfl
  constructor
  · intro c first
    obtain ⟨rest, trimmed⟩ := List.head?_eq_some_iff.mp (Option.mem_def.mp first)
    obtain ⟨dropped, whole⟩ := List.rdropWhile_prefix isBlank (text.dropWhile isBlank)
    have kept := List.head?_dropWhile_not isBlank text
    rwa [← whole, ← ends, trimmed] at kept
  · intro c last
    obtain ⟨nonempty, rfl⟩ := List.mem_getLast?_eq_getLast last
    have kept := List.rdropWhile_last_not isBlank (text.dropWhile isBlank) nonempty
    exact Bool.eq_false_iff.mpr kept

/-- Trimming twice is trimming once. -/
@[simp] theorem trim_trim (text : List Char) : trim (trim text) = trim text :=
  trim_eq_self (trim_ends text).1 (trim_ends text).2

end Treescribe.Text
