import Treescribe.Proofs.Text.Links
import Treescribe.Proofs.Text.Literals
import Treescribe.Proofs.Text.Offsets
import Treescribe.Value.Rendering

/-!
# Where links change

Turning links into dots changes the links that a scan reports in code and no other character,
and what it writes is scanned like the text itself. The literals of a text are also found
without a scan, by their quotes: `LinksDotted` carries each of them over whole.
-/

namespace Treescribe

namespace Text

/-- The offsets of the links among characters of code. -/
def linkOffsets (places : List CodePlace) : List Nat :=
  (places.filter (·.char == '@')).map (·.offset)

/-- A text and the same text with its links as dots, read from left to right: a literal is a
sealed body between two quotes, and a quote that none closes opens one up to the end. -/
inductive LinksDotted : List Char → List Char → Prop where
  | nil : LinksDotted [] []
  | code {c : Char} {rest written : List Char} (unquoted : isQuote c = false)
      (later : LinksDotted rest written) :
      LinksDotted (c :: rest) ((if c = '@' then '.' else c) :: written)
  | literal {quote : Char} {body rest written : List Char} (opens : isQuote quote)
      (closed : isSealed quote body) (later : LinksDotted rest written) :
      LinksDotted (quote :: (body ++ quote :: rest)) (quote :: (body ++ quote :: written))
  | unclosed {quote : Char} {body : List Char} (opens : isQuote quote)
      (never : ∀ inner behind, body = inner ++ quote :: behind → ¬ isSealed quote inner) :
      LinksDotted (quote :: body) (quote :: body)

/-- A dot takes the place of a link, byte for byte. -/
theorem Mark.utf8Size_written (mark : Mark) : mark.written.utf8Size = mark.char.utf8Size := by
  unfold written
  split
  · rename_i code
    simp only [isCode, Bool.and_eq_true, beq_iff_eq] at code
    rw [code.1]
    rfl
  · rfl

/-- The links of two lists of places are those of the one and those of the other. -/
theorem linkOffsets_append (first second : List CodePlace) :
    linkOffsets (first ++ second) = linkOffsets first ++ linkOffsets second := by
  simp [linkOffsets]

/-- A mark is reported as a link exactly if it is one in code. -/
theorem linkOffsets_mark (offset : Nat) (mark : Mark) :
    linkOffsets (mark.depth?.map fun depth => CodePlace.mk offset mark.char depth).toList =
      if mark.isCode '@' then [offset] else [] := by
  obtain ⟨c, depth?⟩ := mark
  cases depth? with
  | none => simp [linkOffsets, Mark.isCode]
  | some depth => by_cases link : c = '@' <;> simp [linkOffsets, Mark.isCode, link]

/-- No link is reported before the offset where the marks start. -/
theorem not_mem_linkOffsets {start offset : Nat} (before : offset < start) (marks : List Mark) :
    offset ∉ linkOffsets (codePlacesFrom start marks) := by
  intro member
  obtain ⟨place, listed, rfl⟩ := List.mem_map.mp member
  have behind := bounds_of_mem_codePlacesFrom (List.mem_filter.mp listed).1
  omega

/-- What is written for marks has the same characters at the same offsets, but for the links
that are reported. -/
theorem indexedFrom_written (offset : Nat) (marks : List Mark) :
    indexedFrom offset (marks.map Mark.written) =
      (indexedFrom offset (unmark marks)).map fun entry =>
        (entry.1,
          if entry.1 ∈ linkOffsets (codePlacesFrom offset marks) then '.' else entry.2) := by
  induction marks generalizing offset with
  | nil => rfl
  | cons mark rest inductionHypothesis =>
    have behind : offset < offset + mark.char.utf8Size :=
      Nat.lt_add_of_pos_right mark.char.utf8Size_pos
    rw [List.map_cons, indexedFrom, mark.utf8Size_written, inductionHypothesis, unmark_cons,
      indexedFrom, List.map_cons, List.cons.injEq, codePlacesFrom, linkOffsets_append,
      linkOffsets_mark]
    constructor
    · -- The marks behind are reported at later offsets, so only the first one counts here.
      have first : offset ∉ linkOffsets (codePlacesFrom (offset + mark.char.utf8Size) rest) :=
        not_mem_linkOffsets behind rest
      by_cases link : mark.isCode '@' <;> simp [Mark.written, link, first]
    · apply List.map_congr_left
      intro entry member
      have other : entry.1 ≠ offset := by
        have later := bounds_of_mem_indexedFrom entry member
        omega
      by_cases link : mark.isCode '@' <;> simp [link, other]

/-- A link that is reported stands in the text. -/
theorem mem_indexed_of_linkOffsets {text : List Char} :
    ∀ offset ∈ linkOffsets (codePlaces text), (offset, '@') ∈ indexed text := by
  intro offset member
  obtain ⟨place, listed, rfl⟩ := List.mem_map.mp member
  obtain ⟨reported, link⟩ := List.mem_filter.mp listed
  have inside := mem_indexedFrom_of_codePlace place reported
  rwa [marks, unmark_marksFrom, beq_iff_eq.mp link] at inside

/-- Marks whose links are dots are reported at the same places, each link as a dot. -/
theorem codePlacesFrom_dotted (offset : Nat) (marks : List Mark) :
    codePlacesFrom offset (marks.map Mark.dotted) =
      (codePlacesFrom offset marks).map fun place =>
        { place with char := if place.char = '@' then '.' else place.char } := by
  induction marks generalizing offset with
  | nil => rfl
  | cons mark rest inductionHypothesis =>
    have same : mark.dotted.char.utf8Size = mark.char.utf8Size := mark.utf8Size_written
    rw [List.map_cons, codePlacesFrom, same, inductionHypothesis, codePlacesFrom, List.map_append]
    congr 1
    obtain ⟨c, depth?⟩ := mark
    cases depth? with
    | none => rfl
    | some depth => by_cases link : c = '@' <;> simp [Mark.dotted, Mark.written, Mark.isCode, link]

/-- Where a literal is never closed, nothing behind its quote stands in code. -/
theorem map_written_of_unclosed {state : ScanState} {text : List Char}
    (quoted : state.mode ≠ .code) (never : closingFrom? state text = none) :
    (marksFrom state text).map Mark.written = text := by
  induction text generalizing state with
  | nil => rfl
  | cons c rest inductionHypothesis =>
    have hidden : state.codeDepth? = none := by
      obtain ⟨mode, depth⟩ := state
      cases mode with
      | code => exact absurd rfl quoted
      | quoted _ | escaped _ => rfl
    rw [closingFrom?] at never
    split at never
    · cases never
    · rename_i stays
      rw [marksFrom, List.map_cons, inductionHypothesis stays (Option.map_eq_none_iff.mp never)]
      simp [Mark.written, Mark.isCode, hidden]

/-- A literal is written as it is up to its closing quote, and code follows. -/
theorem map_written_of_closed {quote : Char} (solid : quote ≠ '\\') {body : List Char}
    (closed : isSealed quote body) (depth : Nat) (behind : List Char) :
    (marksFrom ⟨.quoted quote, depth⟩ (body ++ quote :: behind)).map Mark.written =
      body ++ quote :: (marksFrom { depth } behind).map Mark.written := by
  obtain ⟨after, marked⟩ := scan_of_isSealed closed depth
  have closes : ScanState.step ⟨.quoted quote, depth⟩ quote = { depth } := by
    simp [ScanState.step, solid]
  have kept : ∀ c : Char, Mark.written ⟨c, none⟩ = c := fun c => by
    simp [Mark.written, Mark.isCode]
  rw [marksFrom_append, after, marked, marksFrom, closes, List.map_append, List.map_cons,
    List.map_map]
  simp [Function.comp_def, ScanState.codeDepth?, kept]

section FromCode

variable {c : Char} {depth : Nat}

/-- A quote is written as it is, and the literal behind it follows. -/
theorem map_written_quote (opens : isQuote c) (rest : List Char) :
    (marksFrom { depth } (c :: rest)).map Mark.written =
      c :: (marksFrom ⟨.quoted c, depth⟩ rest).map Mark.written := by
  have other : c ≠ '@' := by
    rintro rfl
    cases opens
  have kept : Mark.written ⟨c, some depth⟩ = c := by
    simp [Mark.written, Mark.isCode, other]
  rw [marksFrom, step_of_isQuote opens, List.map_cons]
  exact congrArg (· :: _) kept

/-- A character of code that is no quote is written as it is or, if it is a link, as a dot, and
code follows. -/
theorem map_written_code (unquoted : isQuote c = false) (depth : Nat) (rest : List Char) :
    ∃ further, (marksFrom { depth } (c :: rest)).map Mark.written =
      (if c = '@' then '.' else c) :: (marksFrom { depth := further } rest).map Mark.written := by
  have stays : ∃ further, ScanState.step { depth } c = { depth := further } := by
    simp only [ScanState.step, unquoted, Bool.false_eq_true, if_false]
    split_ifs
    all_goals exact ⟨_, rfl⟩
  obtain ⟨further, stepped⟩ := stays
  refine ⟨further, ?_⟩
  rw [marksFrom, stepped, List.map_cons]
  simp [Mark.written, Mark.isCode, ScanState.codeDepth?]

/-- There is one text with the links of a text as dots, and it is what is written for its
marks. -/
theorem LinksDotted.eq_written {text written : List Char} (dotted : LinksDotted text written) :
    written = (marksFrom { depth } text).map Mark.written := by
  induction dotted generalizing depth with
  | nil => rfl
  | @code c rest written unquoted later inductionHypothesis =>
    obtain ⟨further, scanned⟩ := map_written_code unquoted depth rest
    rw [scanned, inductionHypothesis]
  | literal opens closed later inductionHypothesis =>
    rw [map_written_quote opens, map_written_of_closed (ne_backslash_of_isQuote opens) closed,
      inductionHypothesis]
  | @unclosed quote body opens never =>
    have stays_open : closingFrom? ⟨.quoted quote, depth⟩ body = none := by
      rw [Option.eq_none_iff_forall_ne_some]
      intro place found
      obtain ⟨inner, behind, split, closed, -⟩ := exists_of_closingFrom? found
      exact never inner behind split closed
    rw [map_written_quote opens, map_written_of_unclosed (by simp) stays_open]

end FromCode

/-- What is written for the marks of a text is the text with its links as dots. -/
theorem linksDotted_written (depth : Nat) (text : List Char) :
    LinksDotted text ((marksFrom { depth } text).map Mark.written) := by
  -- A literal is passed over as a whole, so the induction is on the length of what is left.
  induction size : text.length using Nat.strongRecOn generalizing depth text with
  | ind size inductionHypothesis =>
    cases text with
    | nil => exact .nil
    | cons c rest =>
      subst size
      by_cases opens : isQuote c
      · rw [map_written_quote opens]
        cases found : closingFrom? ⟨.quoted c, depth⟩ rest with
        | none =>
          rw [map_written_of_unclosed (by simp) found]
          refine .unclosed opens ?_
          rintro inner behind rfl closed
          simp [closingFrom?_of_isSealed (ne_backslash_of_isQuote opens) closed] at found
        | some place =>
          obtain ⟨body, behind, rfl, closed, -⟩ := exists_of_closingFrom? found
          have shorter : behind.length < (c :: (body ++ c :: behind)).length := by
            simp only [List.length_cons, List.length_append]
            omega
          rw [map_written_of_closed (ne_backslash_of_isQuote opens) closed]
          exact .literal opens closed (inductionHypothesis _ shorter depth behind rfl)
      · have unquoted : isQuote c = false := by simpa using opens
        obtain ⟨further, scanned⟩ := map_written_code unquoted depth rest
        rw [scanned]
        exact .code unquoted (inductionHypothesis _ (Nat.lt_succ_self _) further rest rfl)

/-- A text with its links as dots is found by its literals alone. -/
theorem linksDotted_iff {text written : List Char} :
    LinksDotted text written ↔ written = dotLinks text := by
  constructor
  · exact LinksDotted.eq_written
  · rintro rfl
    exact linksDotted_written 0 text

end Text

namespace Value

open Text

/-- Turning links into dots keeps every character at its place, except that the links reported
in code are dots. What is written is scanned like the text, no link is left in code, literals
are carried over, and there is nothing left to change. -/
theorem links_change_in_code (text : String) :
    indexed (links text).toList =
        (indexed text.toList).map (fun entry =>
          (entry.1, if entry.1 ∈ linkOffsets (codePlaces text.toList) then '.' else entry.2)) ∧
      (∀ offset ∈ linkOffsets (codePlaces text.toList), (offset, '@') ∈ indexed text.toList) ∧
      (codePlaces (links text).toList).map (fun place => (place.offset, place.depth)) =
        (codePlaces text.toList).map (fun place => (place.offset, place.depth)) ∧
      linkOffsets (codePlaces (links text).toList) = [] ∧
      (∀ written, LinksDotted text.toList written ↔ written = (links text).toList) ∧
      links (links text) = links text := by
  have characters : (links text).toList = dotLinks text.toList := String.toList_ofList
  have scanned := codePlacesFrom_dotted 0 (marks text.toList)
  rw [← marks_dotLinks, ← characters] at scanned
  refine ⟨?_, mem_indexed_of_linkOffsets, ?_, ?_, ?_, ?_⟩
  · have written := indexedFrom_written 0 (marks text.toList)
    rw [characters, dotLinks_eq]
    rwa [marks, unmark_marksFrom] at written
  · rw [codePlaces, scanned, List.map_map]
    rfl
  · rw [codePlaces, scanned, linkOffsets, List.map_eq_nil_iff, List.filter_eq_nil_iff,
      List.forall_mem_map]
    intro place _
    by_cases link : place.char = '@' <;> simp [link]
  · intro written
    rw [characters]
    exact linksDotted_iff
  · rw [links, characters, dotLinks_eq_self fun mark => isCode_of_mem_marks_dotLinks]
    rfl

end Value

end Treescribe
