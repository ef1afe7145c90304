import Treescribe.Proofs.Value.Layouts
import Treescribe.Proofs.Value.Quotations

/-!
# Line breaks of verbatim strings

Compact text joins the lines of a verbatim string by the escape of a line feed. That is the same
as replacing its line breaks, each a line feed with the carriage return right before it if there
is one, except for a line break at the very end: no line follows it, and it is lost.
-/

namespace Treescribe

namespace Text

/-- A text with each of its line breaks replaced. A carriage return belongs to a line break if it
stands right before the line feed. -/
def replaceBreaks (replacement : List Char) : List Char → List Char
  | [] => []
  | c :: rest =>
    if c = '\n' then replacement ++ replaceBreaks replacement rest
    else if c = '\r' ∧ rest.head? = some '\n' then replaceBreaks replacement rest
    else c :: replaceBreaks replacement rest

/-- A line without a carriage return at its end. -/
def withoutFinalReturn (line : List Char) : List Char :=
  if line.getLast? = some '\r' then line.dropLast else line

/-- A text without a line break at its end. -/
def withoutFinalBreak (text : List Char) : List Char :=
  if text.getLast? = some '\n' then withoutFinalReturn text.dropLast else text

/-- Line breaks are replaced part by part, unless one is cut in two. -/
theorem replaceBreaks_append {first second : List Char}
    (whole : first.getLast? = some '\r' → second.head? ≠ some '\n') (replacement : List Char) :
    replaceBreaks replacement (first ++ second) =
      replaceBreaks replacement first ++ replaceBreaks replacement second := by
  induction first with
  | nil => rfl
  | cons c rest inductionHypothesis =>
    have later := inductionHypothesis fun last => whole (by simp [List.getLast?_cons, last])
    have next : c = '\r' ∧ (rest ++ second).head? = some '\n' ↔
        c = '\r' ∧ rest.head? = some '\n' := by
      cases rest with
      | nil =>
        refine and_congr_right fun carriage => iff_of_false ?_ (by simp)
        exact whole (by simp [carriage])
      | cons d later => rfl
    simp only [List.cons_append, replaceBreaks, next, later]
    split_ifs <;> simp

/-- A text without line feeds has no line break to replace. -/
theorem replaceBreaks_of_not_mem {text : List Char} (single : '\n' ∉ text)
    (replacement : List Char) : replaceBreaks replacement text = text := by
  induction text with
  | nil => rfl
  | cons c rest inductionHypothesis =>
    simp only [List.mem_cons, not_or] at single
    have next : rest.head? ≠ some '\n' := fun first => single.2 (List.mem_of_mem_head? first)
    simp [replaceBreaks, Ne.symm single.1, next, inductionHypothesis single.2]

/-- A line break is replaced together with the carriage return before it. -/
theorem replaceBreaks_break (before rest replacement : List Char) :
    replaceBreaks replacement (before ++ '\n' :: rest) =
      replaceBreaks replacement (withoutFinalReturn before) ++ replacement ++
        replaceBreaks replacement rest := by
  unfold withoutFinalReturn
  split
  · rename_i carriage
    obtain ⟨line, rfl⟩ := List.getLast?_eq_some_iff.mp carriage
    have apart : line.getLast? = some '\r' → ('\r' :: '\n' :: rest).head? ≠ some '\n' := by
      simp
    rw [List.append_assoc, List.dropLast_concat]
    exact (replaceBreaks_append apart replacement).trans (by simp [replaceBreaks])
  · rename_i plain
    rw [replaceBreaks_append fun carriage => absurd carriage plain, List.append_assoc]
    rfl

/-- A text that ends with a line break has one more to replace. -/
theorem replaceBreaks_withoutFinalBreak (text replacement : List Char) :
    replaceBreaks replacement text =
      replaceBreaks replacement (withoutFinalBreak text) ++
        if text.getLast? = some '\n' then replacement else [] := by
  unfold withoutFinalBreak
  split
  · rename_i last
    obtain ⟨before, rfl⟩ := List.getLast?_eq_some_iff.mp last
    rw [replaceBreaks_break, List.dropLast_concat]
    exact List.append_nil _
  · exact (List.append_nil _).symm

/-- How long a text is with its line breaks replaced. -/
theorem length_replaceBreaks (replacement text : List Char) :
    (replaceBreaks replacement text).length =
      (replaceBreaks [] text).length + text.count '\n' * replacement.length := by
  fun_induction replaceBreaks replacement text with
  | case1 => simp [replaceBreaks]
  | case2 rest inductionHypothesis =>
    simp only [List.length_append, inductionHypothesis, replaceBreaks, if_true, List.nil_append,
      List.count_cons_self, Nat.add_one_mul]
    omega
  | case3 c rest feed carriage inductionHypothesis =>
    rw [List.count_cons_of_ne feed, replaceBreaks, if_neg feed, if_pos carriage,
      inductionHypothesis]
  | case4 c rest feed other inductionHypothesis =>
    rw [List.count_cons_of_ne feed, replaceBreaks, if_neg feed, if_neg other, List.length_cons,
      List.length_cons, inductionHypothesis]
    omega

/-- A carriage return at the end of a text ends its last line. -/
theorem withoutFinalReturn_break (before rest : List Char) :
    withoutFinalReturn (before ++ '\n' :: rest) = before ++ '\n' :: withoutFinalReturn rest := by
  cases rest with
  | nil => simp [withoutFinalReturn]
  | cons c later =>
    have last : (before ++ '\n' :: c :: later).getLast? = (c :: later).getLast? := by
      simp [List.getLast?_cons]
    unfold withoutFinalReturn
    rw [last]
    split_ifs
    · simp [List.dropLast_append_of_ne_nil]
    · rfl

/-- A line break at the end of a text ends its last line. -/
theorem withoutFinalBreak_break {rest : List Char} (more : rest ≠ []) (before : List Char) :
    withoutFinalBreak (before ++ '\n' :: rest) = before ++ '\n' :: withoutFinalBreak rest := by
  have last : (before ++ '\n' :: rest).getLast? = rest.getLast? := by
    simp [List.getLast?_cons, List.getLast?_eq_some_getLast more]
  have front : (before ++ '\n' :: rest).dropLast = before ++ '\n' :: rest.dropLast := by
    simp [List.dropLast_append_of_ne_nil, List.dropLast_cons_of_ne_nil more]
  unfold withoutFinalBreak
  rw [last, front, withoutFinalReturn_break]
  split_ifs <;> rfl

/-- A line without its carriage return has no other characters. -/
theorem mem_of_mem_withoutFinalReturn {c : Char} {line : List Char}
    (member : c ∈ withoutFinalReturn line) : c ∈ line := by
  unfold withoutFinalReturn at member
  split at member
  · exact List.mem_of_mem_dropLast member
  · exact member

/-- A text without line feeds has no line break at its end. -/
theorem withoutFinalBreak_of_not_mem {text : List Char} (single : '\n' ∉ text) :
    withoutFinalBreak text = text :=
  if_neg fun last => single (List.mem_of_mem_getLast? last)

/-- A line feed ends the line before it. -/
theorem linesFrom_feed (held rest : List Char) :
    linesFrom held ('\n' :: rest) = withoutFinalReturn held.reverse :: linesFrom [] rest := by
  by_cases carriage : held.head? = some '\r'
  · obtain ⟨line, rfl⟩ := List.head?_eq_some_iff.mp carriage
    simp [linesFrom, withoutFinalReturn]
  · have kept : withoutFinalReturn held.reverse = held.reverse :=
      if_neg (by rwa [List.getLast?_reverse])
    rw [linesFrom, kept]
    rintro line rfl
    exact carriage rfl

/-- Another character belongs to the line that is read. -/
theorem linesFrom_plain {c : Char} (other : c ≠ '\n') (held rest : List Char) :
    linesFrom held (c :: rest) = linesFrom (c :: held) rest := by
  rw [linesFrom]
  exact other

/-- A text has no lines only if it is empty. -/
theorem linesFrom_eq_nil {held text : List Char} (none : linesFrom held text = []) :
    held = [] ∧ text = [] := by
  fun_induction linesFrom held text with
  | case1 held empty => exact ⟨List.isEmpty_iff.mp empty, rfl⟩
  | case2 held => cases none
  | case3 held rest => cases none
  | case4 held c rest other inductionHypothesis => cases (inductionHypothesis none).1

/-- The lines of a text are joined to the text with its line breaks replaced, but for a line break
at its end. -/
theorem intercalate_linesFrom {held : List Char} (single : '\n' ∉ held)
    (separator text : List Char) :
    List.intercalate separator (linesFrom held text) =
      replaceBreaks separator (withoutFinalBreak (held.reverse ++ text)) := by
  induction text generalizing held with
  | nil =>
    have begun : '\n' ∉ held.reverse := by simpa using single
    rw [List.append_nil, withoutFinalBreak_of_not_mem begun, replaceBreaks_of_not_mem begun,
      linesFrom_of_not_mem (by simp)]
    cases held <;> simp
  | cons c rest inductionHypothesis =>
    by_cases feed : c = '\n'
    · subst feed
      have line : '\n' ∉ withoutFinalReturn held.reverse := fun member =>
        single (List.mem_reverse.mp (mem_of_mem_withoutFinalReturn member))
      rw [linesFrom_feed]
      by_cases last : rest = []
      · subst last
        have whole : withoutFinalBreak (held.reverse ++ ['\n']) =
            withoutFinalReturn held.reverse := by
          simp [withoutFinalBreak]
        rw [whole, replaceBreaks_of_not_mem line]
        simp [linesFrom]
      · obtain ⟨next, others, follow⟩ : ∃ next others, linesFrom [] rest = next :: others :=
          List.exists_cons_of_ne_nil fun none => last (linesFrom_eq_nil none).2
        have joined := inductionHypothesis List.not_mem_nil
        rw [follow] at joined ⊢
        rw [List.intercalate_cons_cons, joined, withoutFinalBreak_break last, replaceBreaks_break,
          replaceBreaks_of_not_mem line]
        rfl
    · have later : '\n' ∉ c :: held := by
        simpa [eq_comm] using ⟨feed, single⟩
      rw [linesFrom_plain feed, inductionHypothesis later, List.reverse_cons, List.append_assoc]
      rfl

/-- The lines of a text are joined to the text with its line breaks replaced, but for a line break
at its end. -/
theorem intercalate_lines_eq (separator text : List Char) :
    List.intercalate separator (lines text) = replaceBreaks separator (withoutFinalBreak text) :=
  intercalate_linesFrom List.not_mem_nil separator text

/-- A character is replaced or kept, and then the rest of the text. -/
theorem substitute_cons (target c : Char) (replacement rest : List Char) :
    substitute target replacement (c :: rest) =
      (if c = target then replacement else [c]) ++ substitute target replacement rest := by
  simp [substitute]

/-- A character is replaced part by part. -/
theorem substitute_append (target : Char) (replacement first second : List Char) :
    substitute target replacement (first ++ second) =
      substitute target replacement first ++ substitute target replacement second :=
  List.flatMap_append

/-- Doubling the quotes of a text leaves its first character. -/
theorem head?_doubled (text : List Char) :
    (substitute '"' ['"', '"'] text).head? = text.head? := by
  cases text with
  | nil => rfl
  | cons c rest => by_cases quote : c = '"' <;> simp [substitute_cons, quote]

/-- Doubling the quotes of a text leaves its last character. -/
theorem getLast?_doubled (text : List Char) :
    (substitute '"' ['"', '"'] text).getLast? = text.getLast? := by
  rcases List.eq_nil_or_concat text with rfl | ⟨front, c, rfl⟩
  · rfl
  · by_cases quote : c = '"' <;> simp [substitute, quote]

/-- Doubling the quotes leaves a last character of another kind alone. -/
theorem dropLast_doubled {text : List Char} {c : Char} (last : text.getLast? = some c)
    (other : c ≠ '"') :
    (substitute '"' ['"', '"'] text).dropLast = substitute '"' ['"', '"'] text.dropLast := by
  obtain ⟨front, rfl⟩ := List.getLast?_eq_some_iff.mp last
  have single : substitute '"' ['"', '"'] [c] = [c] := by simp [substitute, other]
  rw [substitute_append, single, List.dropLast_concat, List.dropLast_concat]

/-- Doubling the quotes leaves a line break at the end of a text. -/
theorem withoutFinalBreak_doubled (text : List Char) :
    withoutFinalBreak (substitute '"' ['"', '"'] text) =
      substitute '"' ['"', '"'] (withoutFinalBreak text) := by
  have line : ∀ line, withoutFinalReturn (substitute '"' ['"', '"'] line) =
      substitute '"' ['"', '"'] (withoutFinalReturn line) := by
    intro line
    unfold withoutFinalReturn
    rw [getLast?_doubled]
    split_ifs with last
    · exact dropLast_doubled last (by decide)
    · rfl
  unfold withoutFinalBreak
  rw [getLast?_doubled]
  split_ifs with last
  · rw [dropLast_doubled last (by decide), line]
  · rfl

/-- Quotes are doubled and line breaks replaced in either order. -/
theorem replaceBreaks_doubled {replacement : List Char}
    (unquoted : substitute '"' ['"', '"'] replacement = replacement) (text : List Char) :
    replaceBreaks replacement (substitute '"' ['"', '"'] text) =
      substitute '"' ['"', '"'] (replaceBreaks replacement text) := by
  induction text with
  | nil => rfl
  | cons c rest inductionHypothesis =>
    by_cases quote : c = '"'
    · subst quote
      simp [substitute_cons, replaceBreaks, inductionHypothesis]
    · simp only [substitute_cons, if_neg quote, List.singleton_append, replaceBreaks,
        head?_doubled, inductionHypothesis]
      split_ifs
      · rw [substitute_append, unquoted]
      · rfl
      · simp [substitute_cons, quote]

end Text

namespace Literal

/-- The verbatim string of a body with each of its quotes doubled and each of its line breaks,
wherever it stands, written as the escape of a line feed. -/
def escapedVerbatim (body : List Char) : List Char :=
  ['@', '"'] ++ Text.substitute '"' ['"', '"'] (Text.replaceBreaks ['\\', 'n'] body) ++ ['"']

/-- Texts with the same quotes doubled are the same. -/
theorem doubled_injective : Function.Injective (Text.substitute '"' ['"', '"']) := by
  intro first second same
  rw [substitute_quotes, substitute_quotes] at same
  have read : ∀ body, readQuoted? '"' (escapeWith '"' body ++ ['"']) = some (body, []) :=
    readQuoted?_escapeWith (by simp)
  have bodies := read first
  rw [same, read second] at bodies
  exact (Prod.mk.inj (Option.some.inj bodies)).1.symm

/-- Bodies are written alike exactly if they are the same with their line breaks escaped. -/
theorem escapedVerbatim_eq_iff {first second : List Char} :
    escapedVerbatim first = escapedVerbatim second ↔
      Text.replaceBreaks ['\\', 'n'] first = Text.replaceBreaks ['\\', 'n'] second := by
  rw [escapedVerbatim, escapedVerbatim, List.append_left_inj, List.append_right_inj,
    doubled_injective.eq_iff]

/-- The lines of a body are joined to the body with its line breaks escaped, but for a line break at
its end. -/
theorem verbatim_compact_eq (body : List Char) :
    verbatim .compact body = escapedVerbatim (Text.withoutFinalBreak body) := by
  have joined := Text.intercalate_lines_eq ['\\', 'n'] (Text.substitute '"' ['"', '"'] body)
  rw [Text.withoutFinalBreak_doubled, Text.replaceBreaks_doubled (by decide)] at joined
  rw [escapedVerbatim, ← joined]
  rfl

/-- Bodies that differ only in the number of their line breaks are written differently. -/
theorem count_of_escapedVerbatim_eq {first second : List Char}
    (same : escapedVerbatim first = escapedVerbatim second)
    (apart : Text.replaceBreaks [] first = Text.replaceBreaks [] second) :
    first.count '\n' = second.count '\n' := by
  have lengths := congrArg List.length (escapedVerbatim_eq_iff.mp same)
  rw [Text.length_replaceBreaks, Text.length_replaceBreaks _ second, apart, List.length_cons,
    List.length_singleton] at lengths
  omega

/-- A compact verbatim string is its body with each quote doubled and each line break escaped
exactly if the body does not end with a line break, which is lost. The line breaks before it are
not: bodies that differ only in the number of those are written differently. -/
theorem verbatim_breaks (body : List Char) :
    code .compact (tripleBacktick ++ body ++ tripleBacktick) =
        escapedVerbatim (Text.withoutFinalBreak body) ∧
      (code .compact (tripleBacktick ++ body ++ tripleBacktick) = escapedVerbatim body ↔
        body.getLast? ≠ some '\n') ∧
      ∀ other, Text.replaceBreaks [] body = Text.replaceBreaks [] other →
        (Text.withoutFinalBreak body).count '\n' ≠ (Text.withoutFinalBreak other).count '\n' →
        code .compact (tripleBacktick ++ body ++ tripleBacktick) ≠
          code .compact (tripleBacktick ++ other ++ tripleBacktick) := by
  have written : ∀ body, code .compact (tripleBacktick ++ body ++ tripleBacktick) =
      escapedVerbatim (Text.withoutFinalBreak body) := by
    intro body
    rw [code_tripleBacktick, verbatim_compact_eq]
  refine ⟨written body, ?_, ?_⟩
  · rw [written, escapedVerbatim_eq_iff, Text.replaceBreaks_withoutFinalBreak body]
    split_ifs with last <;> simp [last]
  · intro other apart different same
    have kept : ∀ body, Text.replaceBreaks [] (Text.withoutFinalBreak body) =
        Text.replaceBreaks [] body := by
      intro body
      simp [Text.replaceBreaks_withoutFinalBreak body]
    rw [written, written] at same
    exact different (count_of_escapedVerbatim_eq same (by rw [kept, kept, apart]))

/-- Line breaks with and without a carriage return, and a carriage return of its own. -/
theorem verbatim_breaks_mixed :
    code .compact (tripleBacktick ++ "\r\na\r\n\n\"b\r".toList ++ tripleBacktick) =
        "@\"\\na\\n\\n\"\"b\r\"".toList ∧
      code .compact (tripleBacktick ++ "a\nb".toList ++ tripleBacktick) ≠
        code .compact (tripleBacktick ++ "a\n\nb".toList ++ tripleBacktick) :=
  ⟨((verbatim_breaks "\r\na\r\n\n\"b\r".toList).2.1.mpr (by decide)).trans (by decide),
    (verbatim_breaks "a\nb".toList).2.2 "a\n\nb".toList (by decide) (by decide)⟩

/-- A body that ends with a line break is written as if it did not. -/
theorem final_break_lost :
    code .compact (tripleBacktick ++ "a\n".toList ++ tripleBacktick) ≠
        escapedVerbatim "a\n".toList ∧
      code .compact (tripleBacktick ++ "a\n".toList ++ tripleBacktick) =
        code .compact (tripleBacktick ++ "a".toList ++ tripleBacktick) := by
  decide

end Literal

end Treescribe
