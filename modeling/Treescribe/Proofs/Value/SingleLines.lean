import Treescribe.Proofs.Text.Placeholders
import Treescribe.Proofs.Text.Trimming
import Treescribe.Proofs.Value.Layouts
import Treescribe.Session.Condition

/-!
# Values on a single line

Where a line feed can come from in compact text. Texts are trimmed, cut, joined and filled
into each other, none of which brings in a line feed; verbatim strings are the one place where
line feeds of the source are expected, and there the lines are joined. A value is therefore
written on one line if it has no line feed or is a verbatim string as a whole. Inside an
expression or among the arguments of a construction a verbatim string does not count: such a
value has to be free of line feeds itself.
-/

namespace Treescribe

namespace Text

/-- A text without a line feed. -/
def SingleLine (text : List Char) : Prop :=
  '\n' ∉ text

instance (text : List Char) : Decidable (SingleLine text) :=
  inferInstanceAs (Decidable ('\n' ∉ text))

/-- Two texts make up a single line exactly when each of them is one. -/
@[simp] theorem singleLine_append_iff {first second : List Char} :
    SingleLine (first ++ second) ↔ SingleLine first ∧ SingleLine second := by
  simp [SingleLine]

/-- What consists of characters of a single line is a single line. -/
theorem SingleLine.of_subset {text part : List Char} (single : SingleLine text)
    (within : part ⊆ text) : SingleLine part :=
  fun member => single (within member)

/-- Single lines are joined to a single line. -/
theorem singleLine_join {separator : String} {parts : List String}
    (joint : SingleLine separator.toList) (each : ∀ part ∈ parts, SingleLine part.toList) :
    SingleLine (separator.intercalate parts).toList := by
  rw [String.toList_intercalate]
  apply not_mem_intercalate joint
  intro part member
  obtain ⟨text, textMem, rfl⟩ := List.mem_map.mp member
  exact each text textMem

/-- Dots for links bring in no line feed. -/
theorem SingleLine.dotLinks {text : List Char} (single : SingleLine text) :
    SingleLine (dotLinks text) := by
  intro member
  obtain ⟨mark, markMem, written⟩ := List.mem_map.mp member
  have held : mark.char ∈ text := by
    have unmarked : mark.char ∈ unmark (marks text) := List.mem_map_of_mem markMem
    rwa [marks, unmark_marksFrom] at unmarked
  split at written
  · cases written
  · exact single (written ▸ held)

/-- The lines of a text have no line feed. -/
theorem singleLine_of_mem_linesFrom {held text line : List Char} (begun : SingleLine held)
    (member : line ∈ linesFrom held text) : SingleLine line := by
  fun_induction linesFrom held text with
  | case1 => cases member
  | case2 held =>
    rw [List.mem_singleton.mp member]
    exact begun.of_subset (by simp)
  | case3 held rest inductionHypothesis =>
    rcases List.mem_cons.mp member with rfl | member
    · split
      · exact begun.of_subset (by simp)
      · exact begun.of_subset (by simp)
    · exact inductionHypothesis (by decide) member
  | case4 held c rest other inductionHypothesis =>
    apply inductionHypothesis _ member
    simpa [SingleLine, eq_comm] using ⟨other, begun⟩

/-- A single line filled into another one leaves a single line. -/
theorem singleLine_fillFrom {placeholder filling text : List Char} (filled : SingleLine filling)
    (single : SingleLine text) (skip : Nat) :
    SingleLine (fillFrom placeholder filling skip text) := by
  induction text generalizing skip with
  | nil => simpa [fillFrom] using single
  | cons c rest inductionHypothesis =>
    have later := inductionHypothesis (single.of_subset (by simp))
    cases skip with
    | succ skip => exact later skip
    | zero =>
      rw [fillFrom]
      split
      · exact singleLine_append_iff.mpr ⟨filled, later _⟩
      · have both : SingleLine ([c] ++ fillFrom placeholder filling 0 rest) :=
          singleLine_append_iff.mpr ⟨single.of_subset (by simp), later 0⟩
        exact both

/-- Removing markers from the front of a text leaves an end of the text. -/
theorem dropLeadingFrom_suffix (marker : List Char) (skip : Nat) (text : List Char) :
    dropLeadingFrom marker skip text <:+ text := by
  induction text generalizing skip with
  | nil => simp [dropLeadingFrom]
  | cons c rest inductionHypothesis =>
    cases skip with
    | succ skip => exact (inductionHypothesis skip).trans (List.suffix_cons c rest)
    | zero =>
      rw [dropLeadingFrom]
      split
      · exact (inductionHypothesis _).trans (List.suffix_cons c rest)
      · exact List.suffix_rfl

end Text

open Text (SingleLine)

namespace Literal

/-- A value that compact layout writes on one line: it has no line feed, or is a verbatim string
with nothing but white space around it. -/
def Joinable (text : List Char) : Prop :=
  SingleLine text ∨ Text.isDelimited tripleBacktick (Text.trim text)

instance (text : List Char) : Decidable (Joinable text) :=
  inferInstanceAs (Decidable (_ ∨ _))

/-- Compact verbatim strings stand on one line. -/
theorem singleLine_verbatim (body : List Char) : SingleLine (verbatim .compact body) := by
  have joined : SingleLine (List.intercalate ['\\', 'n']
      (Text.lines (Text.substitute '"' ['"', '"'] body))) := by
    apply Text.not_mem_intercalate (by decide)
    intro line member
    exact Text.singleLine_of_mem_linesFrom (by decide) member
  simp only [verbatim, Text.singleLine_append_iff]
  exact ⟨⟨by decide, joined⟩, by decide⟩

/-- Quoting brings in no line feed. -/
theorem singleLine_doubleQuoted {body : List Char} (single : SingleLine body) :
    SingleLine (doubleQuoted body) := by
  have slashes : SingleLine (Text.substitute '\\' ['\\', '\\'] body) :=
    Text.not_mem_substitute single (by decide)
  have quotes : SingleLine (Text.substitute '"' ['\\', '"']
      (Text.substitute '\\' ['\\', '\\'] body)) := Text.not_mem_substitute slashes (by decide)
  simp only [doubleQuoted, Text.singleLine_append_iff]
  exact ⟨⟨by decide, quotes⟩, by decide⟩

/-- A trimmed text on a single line, or a verbatim string, is written on a single line. -/
theorem singleLine_codeOfTrimmed {text : List Char}
    (joinable : SingleLine text ∨ Text.isDelimited tripleBacktick text) :
    SingleLine (codeOfTrimmed .compact text) := by
  rw [codeOfTrimmed]
  split
  · exact singleLine_verbatim _
  · rename_i plain
    have single : SingleLine text := joinable.resolve_right plain
    split
    · apply singleLine_doubleQuoted
      exact single.of_subset fun c member => List.mem_of_mem_drop (List.mem_of_mem_take member)
    · rw [codeOfWord]
      split_ifs
      · decide
      · decide
      · decide
      · exact single.dotLinks

/-- A joinable value is written on a single line. -/
theorem singleLine_code {text : List Char} (joinable : Joinable text) :
    SingleLine (code .compact text) := by
  apply singleLine_codeOfTrimmed
  rcases joinable with single | delimited
  · exact .inl (single.of_subset (Text.trim_infix text).subset)
  · exact .inr delimited

/-- The construction of a single line is a single line. -/
theorem singleLine_construction {text : List Char} (single : SingleLine text) :
    SingleLine (construction .compact text) := by
  have new : SingleLine "new ".toList := by decide
  rw [construction]
  split
  · cases found : constructionParts? text with
    | none => exact Text.singleLine_append_iff.mpr ⟨new, single⟩
    | some parts =>
      obtain ⟨head, arguments, rest⟩ := infix_of_constructionParts found
      have written : SingleLine (commaSeparated
          ((splitArguments parts.arguments).map (code .compact))) := by
        apply Text.not_mem_intercalate (by decide)
        intro part member
        obtain ⟨argument, argumentMem, rfl⟩ := List.mem_map.mp member
        have within := (infix_of_mem_splitArguments argumentMem).trans arguments
        exact singleLine_code (.inl (single.of_subset within.subset))
      have trimmed : SingleLine (Text.trim parts.head) :=
        single.of_subset ((Text.trim_infix _).trans head).subset
      have behind : SingleLine (Text.dotLinks parts.rest) :=
        (single.of_subset rest.subset).dotLinks
      simp only [Text.singleLine_append_iff]
      exact ⟨⟨⟨⟨⟨new, trimmed⟩, by decide⟩, written⟩, by decide⟩, behind⟩
  · simp only [Text.singleLine_append_iff]
    exact ⟨⟨new, single⟩, by decide⟩

end Literal

open Literal (Joinable)

namespace Shape

/-- Without a chain the shape of a value is that of its text. -/
theorem classify_some (classes : List String) (text : String) :
    classify classes false (some text) = ofTrimmed classes (Text.trim text.toList) := by
  simp only [classify, Bool.false_eq_true, if_false]

/-- A verbatim string is a string, whatever classes there are. -/
theorem ofTrimmed_verbatim {value : List Char}
    (delimited : Text.isDelimited Literal.tripleBacktick value) (classes : List String) :
    ofTrimmed classes value = .literal .string := by
  have trimmed : Text.trim value = value := Text.trim_of_isDelimited delimited (by decide)
  have quoted : Literal.isString value := by
    simp only [Text.isDelimited, Bool.and_eq_true, List.isPrefixOf_iff_prefix,
      List.isSuffixOf_iff_suffix, decide_eq_true_eq] at delimited
    obtain ⟨⟨long, first⟩, last⟩ := delimited
    have opened : ['\x60'] <+: value := List.IsPrefix.trans (by decide) first
    have closed : ['\x60'] <:+ value := List.IsSuffix.trans (by decide) last
    have wide : 2 ≤ value.length := le_trans (by decide) long
    simp [Literal.isString, Text.isDelimited, opened, closed, wide]
  simp [ofTrimmed, Literal.kind?, trimmed, Literal.kindOfTrimmed?, quoted]

/-- A trimmed text that constructs an object names its type in its head if that is a class, and
otherwise in all that stands before the parenthesis. -/
theorem name_of_ofTrimmed {classes : List String} {value : List Char} {name : String}
    (constructs : ofTrimmed classes value = .construction name) :
    (String.ofList (head value) ∈ classes ∧ name.toList = head value) ∨
      (String.ofList (head value) ∉ classes ∧
        name.toList = Text.trim (value.takeWhile (· != '('))) := by
  unfold ofTrimmed at constructs
  split at constructs
  · cases constructs
  · simp only at constructs
    split at constructs
    · rename_i known
      cases constructs
      exact .inl ⟨known, String.toList_ofList⟩
    · rename_i unknown
      split at constructs
      · cases constructs
        exact .inr ⟨unknown, String.toList_ofList⟩
      · cases constructs

/-- A trimmed text that constructs an object names its type in a part of it. -/
theorem infix_of_ofTrimmed {classes : List String} {value : List Char} {name : String}
    (constructs : ofTrimmed classes value = .construction name) : name.toList <:+: value := by
  have cut : ∀ stays : Char → Bool, Text.trim (value.takeWhile stays) <:+: value := by
    intro stays
    exact (Text.trim_infix _).trans (List.takeWhile_prefix stays).isInfix
  rcases name_of_ofTrimmed constructs with ⟨-, named⟩ | ⟨-, named⟩
  · rw [named]
    exact cut _
  · rw [named]
    exact cut _

/-- A value that constructs an object names its type on a single line. -/
theorem singleLine_of_classify {classes : List String} {hasChain : Bool} {value : Option String}
    (joinable : ∀ text ∈ value, Joinable text.toList) {name : String}
    (constructs : classify classes hasChain value = .construction name) :
    SingleLine name.toList := by
  cases hasChain with
  | true => cases constructs
  | false =>
    cases value with
    | none => cases constructs
    | some text =>
      rw [classify_some] at constructs
      rcases joinable text rfl with single | delimited
      · have within := (infix_of_ofTrimmed constructs).trans (Text.trim_infix _)
        exact single.of_subset within.subset
      · rw [ofTrimmed_verbatim delimited] at constructs
        cases constructs

end Shape

namespace Value

/-- A joinable value is written on a single line. -/
theorem singleLine_code {text : String} (joinable : Joinable text.toList) :
    SingleLine (code .compact text).toList := by
  rw [code, String.toList_ofList]
  exact Literal.singleLine_code joinable

/-- Joinable values are written on a single line together. -/
theorem singleLine_codes {texts : List String}
    (joinable : ∀ text ∈ texts, Joinable text.toList) :
    SingleLine (codes .compact texts).toList := by
  apply Text.singleLine_join (by decide)
  intro part member
  obtain ⟨text, textMem, rfl⟩ := List.mem_map.mp member
  exact singleLine_code (joinable text textMem)

/-- The suffix of a number is no line feed. -/
theorem singleLine_withFloatSuffix {text : List Char} (single : SingleLine text) :
    SingleLine (withFloatSuffix text) := by
  rw [withFloatSuffix]
  split
  · exact single
  · exact Text.singleLine_append_iff.mpr ⟨single, by decide⟩

/-- The right-hand side of an assignment stands on a single line if its value is joinable. -/
theorem singleLine_render {text : String} (joinable : Joinable text.toList)
    (classes : List String) (floatContext : Bool) :
    SingleLine
      (render .compact (Shape.classify classes false (some text)) floatContext text).toList := by
  rw [render, String.toList_ofList, Shape.classify_some]
  rcases joinable with single | delimited
  · have trimmed : SingleLine (Text.trim text.toList) :=
      single.of_subset (Text.trim_infix _).subset
    have coded := Literal.singleLine_code (.inl trimmed)
    have suffixed := singleLine_withFloatSuffix trimmed
    unfold renderTrimmed
    split
    · exact Literal.singleLine_construction trimmed
    · exact suffixed
    · split
      · exact suffixed
      · exact coded
    · exact coded
  · have trimmed := Text.trim_of_isDelimited delimited (by decide)
    have coded : renderTrimmed .compact (.literal .string) floatContext (Text.trim text.toList) =
        Literal.code .compact (Text.trim text.toList) := rfl
    rw [Shape.ofTrimmed_verbatim delimited, coded]
    apply Literal.singleLine_code
    rw [Joinable, trimmed]
    exact .inr delimited

end Value

/-- A chain stands on a single line if the names of its segments do and their arguments are
joinable. -/
theorem Chain.singleLine_code {segments : List Segment}
    (names : ∀ segment ∈ segments, SingleLine segment.name.toList)
    (arguments : ∀ segment ∈ segments, ∀ text ∈ segment.arguments.getD [], Joinable text.toList)
    (classes : List String) (frame : Option Frame) :
    SingleLine (code .compact classes frame segments).toList := by
  rw [code_eq_intercalate]
  apply Text.singleLine_join (by decide)
  intro part member
  obtain ⟨segment, segmentMem, rfl⟩ := List.mem_map.mp member
  have name := names segment segmentMem
  have codes := Value.singleLine_codes (arguments segment segmentMem)
  have opened : SingleLine "(".toList := by decide
  have closed : SingleLine ")".toList := by decide
  unfold Segment.code
  split
  · simp only [String.toList_append, Text.singleLine_append_iff]
    exact ⟨⟨⟨⟨by decide, name⟩, opened⟩, codes⟩, closed⟩
  · rename_i given _
    rw [given, Option.getD_some] at codes
    simp only [String.toList_append, Text.singleLine_append_iff]
    exact ⟨⟨⟨name, opened⟩, codes⟩, closed⟩
  · exact name

/-- The condition in a text is a part of it. -/
theorem Condition.code_infix (keywords : List String) (text : String) :
    (code keywords text).toList <:+: text.toList := by
  have behind : withoutKeyword keywords (Text.trim text.toList) <:+: Text.trim text.toList := by
    rw [withoutKeyword]
    cases found : keywords.findSome? (behind? (Text.trim text.toList)) with
    | none => exact List.infix_rfl
    | some rest =>
      obtain ⟨keyword, -, opened⟩ := List.exists_of_findSome?_eq_some found
      unfold behind? at opened
      split at opened
      · cases opened
      · rename_i rest' cut
        split at opened
        · cases opened
        · cases opened
          exact ⟨keyword.toList, [], by simp [List.append_eq_of_isPrefixOf?_eq_some cut]⟩
  have shortened : ∀ {drops : Char → Bool} {part : List Char},
      Text.dropEnd drops part <:+: part := by
    intro drops part
    rw [← List.reverse_infix, Text.dropEnd, List.reverse_reverse]
    exact (List.dropWhile_suffix _).isInfix
  rw [code, String.toList_ofList]
  exact (Text.trim_infix _).trans (shortened.trans (behind.trans (Text.trim_infix _)))

/-- The keywords of modifiers are single lines. -/
theorem Modifiers.singleLine_keywords (modifiers : Modifiers) (default : Option Access) :
    ∀ keyword ∈ modifiers.keywords default, SingleLine keyword.toList := by
  obtain ⟨access, isStatic⟩ := modifiers
  rcases access with _ | ⟨⟨⟩⟩ <;> rcases default with _ | ⟨⟨⟩⟩ <;> cases isStatic <;> decide

/-- The target types of tags are single lines. -/
theorem TypeTag.singleLine_target (tag : TypeTag) : SingleLine tag.target.code.toList := by
  cases tag <;> decide

/-- A declaration is written with a type on a single line if a type that is constructed is. -/
theorem Declaration.singleLine_type {declaration : Declaration} {type : TargetType}
    (constructed : ∀ name, declaration.shape = .construction name → SingleLine name.toList)
    (written : declaration.type? = some type) : SingleLine type.code.toList := by
  obtain ⟨tag, shape, isField, isMemberReference⟩ := declaration
  cases tag with
  | some tag =>
    cases written
    exact tag.singleLine_target
  | none =>
    simp only [type?] at written
    split at written
    · cases written
    · split at written
      · cases written
      · cases written
        rename_i kind
        cases kind <;> decide
      · cases written
        exact constructed _ rfl
      · cases written
        decide

/-- A parameter stands on a single line if its name does and its default is joinable. -/
theorem Parameter.singleLine_code {parameter : Parameter} {code : String}
    (name : SingleLine parameter.name.toList)
    (joinable : ∀ text ∈ parameter.default, Joinable text.toList)
    (written : parameter.code .compact = .ok code) : SingleLine code.toList := by
  obtain ⟨tag, -, joined⟩ := bind_eq_ok_iff.mp written
  rw [← Except.ok.inj joined]
  apply Text.singleLine_join (by decide)
  intro part member
  simp only [List.mem_append, Option.mem_toList, Option.map_eq_some_iff, List.mem_singleton]
    at member
  rcases member with (⟨type, -, rfl⟩ | rfl) | ⟨text, given, rfl⟩
  · exact type.singleLine_target
  · exact name
  · rw [String.toList_append, Text.singleLine_append_iff]
    exact ⟨by decide, Value.singleLine_code (joinable text given)⟩

/-- The keywords before the name of a function are single lines. -/
theorem Function.singleLine_typeKeywords {function : Function} {className : String}
    {keywords : List String} (written : function.typeKeywords className = .ok keywords) :
    ∀ keyword ∈ keywords, SingleLine keyword.toList := by
  unfold typeKeywords at written
  split at written
  · cases written
    split_ifs <;> decide
  · obtain ⟨type, -, joined⟩ := bind_eq_ok_iff.mp written
    cases joined
    intro keyword member
    rcases List.mem_append.mp member with overriding | typed
    · split at overriding
      · rw [List.mem_singleton.mp overriding]
        decide
      · cases overriding
    · rw [List.mem_singleton.mp typed]
      exact type.singleLine_target

/-- The header of a function stands on a single line if its name and those of its parameters do,
and their defaults are joinable. -/
theorem Function.singleLine_header {function : Function} {modifiers : Modifiers}
    {className header : String} (name : SingleLine function.name.toList)
    (parameters : ∀ parameter ∈ function.parameters, SingleLine parameter.name.toList)
    (joinable : ∀ parameter ∈ function.parameters, ∀ text ∈ parameter.default,
      Joinable text.toList)
    (written : function.header .compact modifiers className = .ok header) :
    SingleLine header.toList := by
  obtain ⟨typeKeywords, typed, written⟩ := bind_eq_ok_iff.mp written
  obtain ⟨codes, coded, joined⟩ := bind_eq_ok_iff.mp written
  rw [← Except.ok.inj joined, String.toList_ofList]
  apply Text.singleLine_fillFrom
  · apply Text.singleLine_join (by decide)
    intro code member
    obtain ⟨parameter, parameterMem, written⟩ :=
      exists_of_forall₂ (mapM_eq_ok_iff.mp coded) member
    exact Parameter.singleLine_code (parameters parameter parameterMem)
      (joinable parameter parameterMem) written
  · have keywords : ∀ keyword ∈ modifiers.keywords (some .publicAccess) ++ typeKeywords,
        SingleLine keyword.toList := by
      intro keyword member
      rcases List.mem_append.mp member with modifier | type
      · exact modifiers.singleLine_keywords _ keyword modifier
      · exact singleLine_typeKeywords typed keyword type
    have start : SingleLine (" ".intercalate
        (modifiers.keywords (some .publicAccess) ++ typeKeywords)).toList :=
      Text.singleLine_join (by decide) keywords
    have mark : SingleLine parametersMark.toList := by decide
    simp only [String.toList_append, Text.singleLine_append_iff]
    exact ⟨⟨⟨⟨⟨start, by decide⟩, name⟩, by decide⟩, mark⟩, by decide⟩

end Treescribe
