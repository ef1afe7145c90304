import Treescribe.Proofs.Text.Nesting
import Treescribe.Proofs.Text.Trimming

/-!
# Links as dots

A link and the dot it becomes are both plain characters of code, so a scan passes over the one as
over the other: a text with its links as dots is marked like the text itself. Nothing is left to
change in it, and whatever is spelled without links and dots stands where it stood.
-/

namespace Treescribe.Text

/-- The character that is written for a mark. -/
def Mark.written (mark : Mark) : Char :=
  if mark.isCode '@' then '.' else mark.char

/-- A mark whose link is a dot. -/
def Mark.dotted (mark : Mark) : Mark :=
  { mark with char := mark.written }

/-- A text with its links as dots is written mark by mark. -/
theorem dotLinks_eq (text : List Char) : dotLinks text = (marks text).map Mark.written :=
  rfl

/-- A text consists of the characters of its marks. -/
theorem map_char_marks (text : List Char) : (marks text).map Mark.char = text :=
  unmark_marksFrom {} text

/-- A link with its dot is no link. -/
theorem Mark.isCode_dotted (mark : Mark) : mark.dotted.isCode '@' = false := by
  unfold dotted written
  split
  · simp [isCode]
  · rename_i other
    simpa using other

/-- Characters other than links and dots are written where they stand and nowhere else. -/
theorem Mark.written_eq_iff {mark : Mark} {c : Char} (link : c ≠ '@') (dot : c ≠ '.') :
    c = mark.written ↔ c = mark.char := by
  unfold written
  split
  · rename_i code
    simp only [isCode, Bool.and_eq_true, beq_iff_eq] at code
    simp [code.1, link, dot]
  · rfl

/-- White space is written where it stands and nowhere else. -/
theorem Mark.isBlank_written (mark : Mark) : isBlank mark.written = isBlank mark.char := by
  unfold written
  split
  · rename_i code
    simp only [isCode, Bool.and_eq_true, beq_iff_eq] at code
    rw [code.1]
    rfl
  · rfl

/-- A scan goes on behind what is written for a character as it does behind the character. -/
theorem ScanState.step_written (state : ScanState) (c : Char) :
    state.step (Mark.written ⟨c, state.codeDepth?⟩) = state.step c := by
  unfold Mark.written
  split
  · rename_i code
    obtain ⟨mode, depth⟩ := state
    simp only [Mark.isCode, Bool.and_eq_true, beq_iff_eq] at code
    obtain ⟨rfl, inCode⟩ := code
    cases mode with
    | code => rw [step_plain rfl rfl, step_plain rfl rfl]
    | quoted quote => cases inCode
    | escaped quote => cases inCode
  · rfl

/-- What is written for a text is marked like the text, with its links as dots. -/
theorem marksFrom_written (state : ScanState) (text : List Char) :
    marksFrom state ((marksFrom state text).map Mark.written) =
      (marksFrom state text).map Mark.dotted := by
  induction text generalizing state with
  | nil => rfl
  | cons c rest inductionHypothesis =>
    simp only [marksFrom, List.map_cons, ScanState.step_written, inductionHypothesis]
    rfl

/-- A text with its links as dots is marked like the text, with its links as dots. -/
theorem marks_dotLinks (text : List Char) : marks (dotLinks text) = (marks text).map Mark.dotted :=
  marksFrom_written {} text

/-- A text without links in code is written as it is. -/
theorem dotLinks_eq_self {text : List Char} (none : ∀ mark ∈ marks text, mark.isCode '@' = false) :
    dotLinks text = text := by
  have kept : (marks text).map Mark.written = (marks text).map Mark.char := by
    apply List.map_congr_left
    intro mark member
    rw [Mark.written, none mark member]
    rfl
  rw [dotLinks_eq, kept, map_char_marks]

/-- No link is left in code once the links are dots. -/
theorem isCode_of_mem_marks_dotLinks {text : List Char} {mark : Mark}
    (member : mark ∈ marks (dotLinks text)) : mark.isCode '@' = false := by
  rw [marks_dotLinks] at member
  obtain ⟨source, -, rfl⟩ := List.mem_map.mp member
  exact source.isCode_dotted

/-- Marks are written as a part without links and dots exactly if they hold it. -/
theorem map_written_eq_iff {marks : List Mark} {part : List Char}
    (plain : '@' ∉ part ∧ '.' ∉ part) :
    part = marks.map Mark.written ↔ part = marks.map Mark.char := by
  induction marks generalizing part with
  | nil => rfl
  | cons mark rest inductionHypothesis =>
    cases part with
    | nil => simp
    | cons c later =>
      simp only [List.mem_cons, not_or] at plain
      obtain ⟨⟨link, links⟩, dot, dots⟩ := plain
      rw [List.map_cons, List.map_cons, List.cons.injEq, List.cons.injEq,
        Mark.written_eq_iff (Ne.symm link) (Ne.symm dot), inductionHypothesis ⟨links, dots⟩]

section Plain

variable {text part : List Char} (plain : '@' ∉ part ∧ '.' ∉ part)

include plain

/-- A text is spelled without links and dots exactly if it is so with its links as dots. -/
theorem dotLinks_eq_iff : dotLinks text = part ↔ text = part := by
  rw [dotLinks_eq, eq_comm, map_written_eq_iff plain, map_char_marks, eq_comm]

/-- A part without links and dots is in front of a text exactly if it is so with its links as
dots. -/
theorem prefix_dotLinks_iff : part <+: dotLinks text ↔ part <+: text := by
  nth_rewrite 2 [← map_char_marks text]
  rw [dotLinks_eq, List.prefix_map_iff, List.prefix_map_iff]
  simp only [map_written_eq_iff plain]

/-- A part without links and dots is at the end of a text exactly if it is so with its links as
dots. -/
theorem suffix_dotLinks_iff : part <:+ dotLinks text ↔ part <:+ text := by
  nth_rewrite 2 [← map_char_marks text]
  rw [dotLinks_eq, List.suffix_map_iff, List.suffix_map_iff]
  simp only [map_written_eq_iff plain]

/-- Delimiters are left where they stand. -/
theorem isDelimited_dotLinks : isDelimited part (dotLinks text) = isDelimited part text := by
  have length : (dotLinks text).length = text.length := by
    rw [dotLinks_eq, List.length_map, length_marks]
  rw [Bool.eq_iff_iff]
  simp only [isDelimited, Bool.and_eq_true, List.isPrefixOf_iff_prefix,
    List.isSuffixOf_iff_suffix, length, prefix_dotLinks_iff plain, suffix_dotLinks_iff plain]

end Plain

/-- Dots for links leave a trimmed text trimmed. -/
theorem trim_dotLinks_trim (text : List Char) :
    trim (dotLinks (trim text)) = dotLinks (trim text) := by
  obtain ⟨start, ends⟩ := trim_ends text
  rw [← map_char_marks (trim text), List.head?_map] at start
  rw [← map_char_marks (trim text), List.getLast?_map] at ends
  apply trim_eq_self
  · intro c first
    rw [dotLinks_eq, List.head?_map] at first
    obtain ⟨mark, found, rfl⟩ := Option.map_eq_some_iff.mp first
    rw [mark.isBlank_written]
    exact start _ (by rw [found]; rfl)
  · intro c last
    rw [dotLinks_eq, List.getLast?_map] at last
    obtain ⟨mark, found, rfl⟩ := Option.map_eq_some_iff.mp last
    rw [mark.isBlank_written]
    exact ends _ (by rw [found]; rfl)

end Treescribe.Text
