import Treescribe.Literal.Quoting
import Treescribe.Proofs.Text.Trimming

/-!
# Quoted strings read back

A string of the source is written between double quotes, and whoever reads the literal has to
find its end and its body again. Both kinds of literal put an escape character before the
quotes and the escape characters of the body: the backslash in plain strings, the quote itself
in verbatim ones. Read that way, a literal ends at its last quote, whatever the body holds, and
gives back the body.
-/

namespace Treescribe

namespace Text

variable (delimiter body : List Char)

/-- A body between two delimiters is delimited by them. -/
theorem isDelimited_between : isDelimited delimiter (delimiter ++ body ++ delimiter) = true := by
  have long : 2 * delimiter.length ≤ (delimiter ++ body ++ delimiter).length := by
    simp only [List.length_append]
    omega
  have starts : delimiter <+: delimiter ++ body ++ delimiter := by
    rw [List.append_assoc]
    exact List.prefix_append _ _
  simp only [isDelimited, Bool.and_eq_true, decide_eq_true_eq, List.isPrefixOf_iff_prefix,
    List.isSuffixOf_iff_suffix]
  exact ⟨⟨long, starts⟩, List.suffix_append _ _⟩

/-- A body between two delimiters is what stands inside them. -/
theorem inside_between : inside delimiter (delimiter ++ body ++ delimiter) = body := by
  have length : (delimiter ++ body ++ delimiter).length - 2 * delimiter.length = body.length := by
    simp only [List.length_append]
    omega
  rw [inside, length, List.append_assoc, List.drop_left, List.take_left]

/-- A text is delimited exactly if it is a body between two delimiters. -/
theorem isDelimited_iff {delimiter text : List Char} :
    isDelimited delimiter text ↔ ∃ body, text = delimiter ++ body ++ delimiter := by
  constructor
  · intro delimited
    simp only [isDelimited, Bool.and_eq_true, decide_eq_true_eq, List.isPrefixOf_iff_prefix,
      List.isSuffixOf_iff_suffix] at delimited
    obtain ⟨⟨long, rest, rfl⟩, ends⟩ := delimited
    have behind : delimiter <:+ rest := by
      apply List.suffix_of_suffix_length_le ends (List.suffix_append delimiter rest)
      simp only [List.length_append] at long
      omega
    obtain ⟨body, rfl⟩ := behind
    exact ⟨body, by simp⟩
  · rintro ⟨body, rfl⟩
    exact isDelimited_between delimiter body

end Text

namespace Literal

/-- A body with an escape character before its quotes and its escape characters. -/
def escapeWith (escape : Char) (body : List Char) : List Char :=
  body.flatMap fun c => if c = '"' ∨ c = escape then [escape, c] else [c]

/-- Reads a literal from behind its opening quote up to the first quote that is not escaped: its
body, and what follows the literal. A character is escaped by the escape character right before
it, unless that one is escaped itself; only quotes and escape characters may be. -/
def readQuoted? (escape : Char) : List Char → Option (List Char × List Char)
  | [] => none
  | [c] => if c = '"' then some ([], []) else none
  | c :: next :: rest =>
    if c = escape ∧ (next = '"' ∨ next = escape) then
      (readQuoted? escape rest).map fun (body, behind) => (next :: body, behind)
    else if c = '"' then some ([], next :: rest)
    else if c = escape then none
    else (readQuoted? escape (next :: rest)).map fun (body, behind) => (c :: body, behind)

/-- A text is one double-quoted literal of a body: reading it stops at its last character and
gives the body, also if something follows the literal that cannot be taken for a part of it. -/
def Quotes (escape : Char) (text body : List Char) : Prop :=
  ∃ written, text = ['"'] ++ written ++ ['"'] ∧
    ∀ behind : List Char, (escape = '"' → behind.head? ≠ some '"') →
      readQuoted? escape (written ++ '"' :: behind) = some (body, behind)

/-- An escaped body is read back up to the quote that follows it. -/
theorem readQuoted?_escapeWith {escape : Char} {behind : List Char}
    (apart : escape = '"' → behind.head? ≠ some '"') (body : List Char) :
    readQuoted? escape (escapeWith escape body ++ '"' :: behind) = some (body, behind) := by
  induction body with
  | nil =>
    cases behind with
    | nil => rfl
    | cons next rest =>
      -- A quote that is the escape character closes the literal only if no other quote follows.
      have closes : ¬('"' = escape ∧ (next = '"' ∨ next = escape)) := by
        rintro ⟨rfl, quote | quote⟩ <;> exact apart rfl (by simp [quote])
      simp [escapeWith, readQuoted?, closes]
  | cons c rest inductionHypothesis =>
    by_cases special : c = '"' ∨ c = escape
    · have escaped : escapeWith escape (c :: rest) = escape :: c :: escapeWith escape rest := by
        simp [escapeWith, special]
      rw [escaped, List.cons_append, List.cons_append, readQuoted?, if_pos ⟨rfl, special⟩,
        inductionHypothesis]
      rfl
    · have kept : escapeWith escape (c :: rest) = c :: escapeWith escape rest := by
        simp [escapeWith, special]
      -- The reader looks at two characters at a time, and the closing quote is always left.
      obtain ⟨next, later, follows⟩ : ∃ next later,
          escapeWith escape rest ++ '"' :: behind = next :: later :=
        List.exists_cons_of_ne_nil (by simp)
      rw [not_or] at special
      rw [kept, List.cons_append, follows, readQuoted?, ← follows, inductionHypothesis]
      simp [special]

/-- An escaped body between quotes is one literal of that body. -/
theorem quotes_escapeWith (escape : Char) (body : List Char) :
    Quotes escape (['"'] ++ escapeWith escape body ++ ['"']) body :=
  ⟨escapeWith escape body, rfl, fun _ apart => readQuoted?_escapeWith apart body⟩

/-- Escaping the backslashes first and the quotes next escapes each of them once. -/
theorem doubleQuoted_eq (body : List Char) :
    doubleQuoted body = ['"'] ++ escapeWith '\\' body ++ ['"'] := by
  have once : Text.substitute '"' ['\\', '"'] (Text.substitute '\\' ['\\', '\\'] body) =
      escapeWith '\\' body := by
    simp only [Text.substitute, escapeWith, List.flatMap_assoc]
    congr 1
    funext c
    by_cases backslash : c = '\\'
    · simp [backslash]
    · by_cases quote : c = '"' <;> simp [backslash, quote]
  rw [doubleQuoted, once]

/-- Doubling the quotes escapes them by themselves. -/
theorem substitute_quotes (body : List Char) :
    Text.substitute '"' ['"', '"'] body = escapeWith '"' body := by
  simp only [Text.substitute, escapeWith]
  congr 1
  funext c
  by_cases quote : c = '"' <;> simp [quote]

/-- A verbatim string that keeps its line breaks has its quotes escaped. -/
theorem verbatim_pretty_eq (body : List Char) :
    verbatim .pretty body = '@' :: (['"'] ++ escapeWith '"' body ++ ['"']) := by
  simp only [verbatim, substitute_quotes]
  rfl

/-- A string between single quotes or backticks is written with double quotes. -/
theorem code_quoted {quote : Char} (single : quote = '\'' ∨ quote = '\x60') {body : List Char}
    (simple : Text.isDelimited tripleBacktick ([quote] ++ body ++ [quote]) = false)
    (layout : Layout) : code layout ([quote] ++ body ++ [quote]) = doubleQuoted body := by
  have delimited := Text.isDelimited_between [quote] body
  have solid : [quote].any Text.isBlank = false := by
    rcases single with rfl | rfl <;> rfl
  have inner : Text.inside ['\''] ([quote] ++ body ++ [quote]) = body :=
    Text.inside_between [quote] body
  have string : (Text.isDelimited ['\''] ([quote] ++ body ++ [quote]) ||
      Text.isDelimited ['\x60'] ([quote] ++ body ++ [quote])) = true := by
    rcases single with rfl | rfl <;> simp only [delimited, Bool.true_or, Bool.or_true]
  rw [code, Text.trim_of_isDelimited delimited solid, codeOfTrimmed, simple, string, inner]
  rfl

/-- A string between triple backticks is written as a verbatim one. -/
theorem code_tripleBacktick (layout : Layout) (body : List Char) :
    code layout (tripleBacktick ++ body ++ tripleBacktick) = verbatim layout body := by
  have delimited := Text.isDelimited_between tripleBacktick body
  rw [code, Text.trim_of_isDelimited delimited (by decide), codeOfTrimmed, if_pos delimited,
    Text.inside_between]

/-- Strings lose nothing: a string of the source is written as one literal of the same body. -/
theorem code_quotes (body : List Char) :
    (∀ layout, Quotes '\\' (code layout (['\''] ++ body ++ ['\''])) body) ∧
      (Text.isDelimited tripleBacktick (['\x60'] ++ body ++ ['\x60']) = false →
        ∀ layout, Quotes '\\' (code layout (['\x60'] ++ body ++ ['\x60'])) body) ∧
      ∃ literal, code .pretty (tripleBacktick ++ body ++ tripleBacktick) = '@' :: literal ∧
        Quotes '"' literal body := by
  have written : Quotes '\\' (doubleQuoted body) body := by
    rw [doubleQuoted_eq]
    exact quotes_escapeWith '\\' body
  refine ⟨fun layout => ?_, fun simple layout => ?_, _, ?_, quotes_escapeWith '"' body⟩
  · have simple : Text.isDelimited tripleBacktick (['\''] ++ body ++ ['\'']) = false := by
      simp [Text.isDelimited, tripleBacktick]
    rwa [code_quoted (.inl rfl) simple]
  · rwa [code_quoted (.inr rfl) simple]
  · rw [code_tripleBacktick, verbatim_pretty_eq]

/-- A body that starts with a backtick and ends with a quote and a backslash, between backticks. -/
theorem code_quotes_backtick :
    Text.isDelimited tripleBacktick (['\x60'] ++ ['\x60', '"', '\\'] ++ ['\x60']) = false ∧
      code .compact (['\x60'] ++ ['\x60', '"', '\\'] ++ ['\x60']) =
        ['"', '\x60', '\\', '"', '\\', '\\', '"'] ∧
      Quotes '\\' (code .compact (['\x60'] ++ ['\x60', '"', '\\'] ++ ['\x60']))
        ['\x60', '"', '\\'] :=
  ⟨rfl, by decide, (code_quotes ['\x60', '"', '\\']).2.1 rfl .compact⟩

end Literal

end Treescribe
