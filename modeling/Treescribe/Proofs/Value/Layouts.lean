import Mathlib.Data.List.Infix
import Treescribe.Proofs.Outcome
import Treescribe.Proofs.Value.Chains
import Treescribe.Session.Header

/-!
# Values in both layouts

The layout reaches the target form of a value at one place: the lines of a verbatim
string, which compact text joins. A value that could be one, or hold one among its
arguments, and has no line feed is therefore written alike in both layouts, and so is all
that is built of such values.
-/

namespace Treescribe

namespace Text

/-- Trimming leaves a part of the text. -/
theorem trim_infix (text : List Char) : trim text <:+: text := by
  have suffix : dropStart isBlank text <:+ text := List.dropWhile_suffix _
  have start : trim text <+: dropStart isBlank text := by
    rw [← List.reverse_suffix, trim, dropEnd, List.reverse_reverse]
    exact List.dropWhile_suffix _
  exact start.isInfix.trans suffix.isInfix

/-- Each piece of a list that is cut is a part of it. -/
theorem infix_of_mem_splitOnP {α : Type} {cuts : α → Bool} {list piece : List α}
    (member : piece ∈ list.splitOnP cuts) : piece <:+: list := by
  -- The first piece is even a prefix, which the step needs where its head grows.
  suffices both : (∀ first rest, list.splitOnP cuts = first :: rest → first <+: list) ∧
      ∀ piece ∈ list.splitOnP cuts, piece <:+: list from both.2 piece member
  clear member
  induction list with
  | nil => simp
  | cons item rest inductionHypothesis =>
    rw [List.splitOnP_cons_eq_if_modifyHead]
    split
    · refine ⟨by rintro first others ⟨⟩; exact List.nil_prefix, ?_⟩
      intro piece member
      rcases List.mem_cons.mp member with rfl | member
      · exact List.nil_infix
      · exact (inductionHypothesis.2 piece member).trans
          (List.infix_cons_iff.mpr (.inr List.infix_rfl))
    · rcases pieces : rest.splitOnP cuts with _ | ⟨first, others⟩
      · exact absurd pieces (List.splitOnP_ne_nil _ _)
      · rw [pieces] at inductionHypothesis
        have grown : item :: first <+: item :: rest :=
          (List.prefix_cons_inj item).mpr (inductionHypothesis.1 first others rfl)
        refine ⟨by rintro _ _ ⟨⟩; exact grown, ?_⟩
        intro piece member
        rcases List.mem_cons.mp member with rfl | member
        · exact grown.isInfix
        · exact (inductionHypothesis.2 piece (by simp [member])).trans
            (List.infix_cons_iff.mpr (.inr List.infix_rfl))

/-- A text without line feeds is one line, unless it is empty. -/
theorem linesFrom_of_not_mem {text : List Char} (single : '\n' ∉ text) (held : List Char) :
    linesFrom held text =
      if held.isEmpty && text.isEmpty then [] else [held.reverse ++ text] := by
  induction text generalizing held with
  | nil => cases held <;> simp [linesFrom]
  | cons c rest inductionHypothesis =>
    have different : c ≠ '\n' := by
      rintro rfl
      exact single (by simp)
    rw [linesFrom, inductionHypothesis fun member => single (by simp [member])]
    · simp
    · exact different

/-- The lines of a text without line feeds are joined to the text. -/
theorem intercalate_lines {text : List Char} (single : '\n' ∉ text) (separator : List Char) :
    List.intercalate separator (lines text) = text := by
  rw [lines, linesFrom_of_not_mem single]
  cases text <;> simp

/-- Replacing one character by some brings in no other than those. -/
theorem not_mem_substitute {c target : Char} {replacement text : List Char}
    (absent : c ∉ text) (foreign : c ∉ replacement) : c ∉ substitute target replacement text := by
  unfold substitute
  intro member
  obtain ⟨source, sourceMem, written⟩ := List.mem_flatMap.mp member
  by_cases replaced : source == target
  · rw [if_pos replaced] at written
    exact foreign written
  · rw [if_neg replaced, List.mem_singleton] at written
    exact absent (written ▸ sourceMem)

end Text

namespace Literal

/-- A text that has no line feed if it has the mark of verbatim strings. -/
def LayoutFree (text : List Char) : Prop :=
  tripleBacktick <:+: text → '\n' ∉ text

/-- The parts of a text are written alike if the text is. -/
theorem LayoutFree.of_infix {text part : List Char} (free : LayoutFree text)
    (within : part <:+: text) : LayoutFree part :=
  fun marked member => free (marked.trans within) (within.subset member)

/-- A verbatim string of one line is the same in both layouts. -/
theorem verbatim_layouts {body : List Char} (single : '\n' ∉ body) (first second : Layout) :
    verbatim first body = verbatim second body := by
  have doubled : '\n' ∉ Text.substitute '"' ['"', '"'] body :=
    Text.not_mem_substitute single (by decide)
  have joined := Text.intercalate_lines doubled ['\\', 'n']
  cases first <;> cases second <;> simp [verbatim, joined]

/-- A trimmed text has the same target form in both layouts. -/
theorem codeOfTrimmed_layouts {text : List Char} (free : LayoutFree text)
    (first second : Layout) : codeOfTrimmed first text = codeOfTrimmed second text := by
  unfold codeOfTrimmed
  split
  · rename_i delimited
    have marked : tripleBacktick <:+: text := by
      simp only [Text.isDelimited, Bool.and_eq_true, List.isPrefixOf_iff_prefix] at delimited
      exact delimited.1.2.isInfix
    have single : '\n' ∉ Text.inside tripleBacktick text := by
      intro member
      exact free marked (List.mem_of_mem_drop (List.mem_of_mem_take member))
    exact verbatim_layouts single first second
  · rfl

/-- A text has the same target form in both layouts. -/
theorem code_layouts {text : List Char} (free : LayoutFree text) (first second : Layout) :
    code first text = code second text :=
  codeOfTrimmed_layouts (free.of_infix (Text.trim_infix text)) first second

/-- What some of the marks of a text hold is a part of the text. -/
theorem unmark_infix {text : List Char} {marks : List Text.Mark}
    (within : marks <:+: Text.marks text) : Text.unmark marks <:+: text := by
  have held : Text.unmark marks <:+: Text.unmark (Text.marks text) := within.map Text.Mark.char
  rwa [Text.marks, Text.unmark_marksFrom] at held

/-- Each argument of a list is a part of it. -/
theorem infix_of_mem_splitArguments {text argument : List Char}
    (member : argument ∈ splitArguments text) : argument <:+: text := by
  unfold splitArguments at member
  split at member
  · cases member
  · obtain ⟨piece, pieceMem, rfl⟩ := List.mem_map.mp member
    have within := unmark_infix (Text.infix_of_mem_splitOnP pieceMem)
    exact (Text.trim_infix _).trans within

/-- Cutting at a closing parenthesis takes nothing but the two parentheses away. -/
theorem exists_of_closeParenthesis? {marks : List Text.Mark} {arguments rest : List Char}
    (closed : closeParenthesis? marks = some (arguments, rest)) :
    ∃ opening held closing behind, marks = opening :: (held ++ closing :: behind) ∧
      arguments = Text.unmark held ∧ rest = Text.unmark behind := by
  cases marks with
  | nil => cases closed
  | cons opening later =>
    rw [closeParenthesis?] at closed
    split at closed
    · cases closed
    · rename_i depth _
      simp only at closed
      split at closed
      · cases closed
      · rename_i closing behind dropped
        obtain ⟨rfl, rfl⟩ := Prod.mk.inj (Option.some.inj closed)
        refine ⟨opening, _, closing, behind, ?_, rfl, rfl⟩
        rw [← dropped, List.takeWhile_append_dropWhile]

/-- The parts of a construction stand in its text. -/
theorem infix_of_constructionParts {text : List Char} {parts : ConstructionParts}
    (found : constructionParts? text = some parts) :
    parts.head <:+: text ∧ parts.arguments <:+: text ∧ parts.rest <:+: text := by
  simp only [constructionParts?, Option.map_eq_some_iff] at found
  obtain ⟨⟨arguments, rest⟩, closed, rfl⟩ := found
  obtain ⟨opening, held, closing, behind, split, rfl, rfl⟩ := exists_of_closeParenthesis? closed
  have within : ∀ {part}, part <:+: opening :: (held ++ closing :: behind) →
      Text.unmark part <:+: text := by
    intro part inside
    rw [← split] at inside
    exact unmark_infix (inside.trans (List.drop_suffix _ _).isInfix)
  refine ⟨(List.takeWhile_prefix _).isInfix, within ?_, within ?_⟩
  · exact ⟨[opening], closing :: behind, by simp⟩
  · exact ⟨opening :: held ++ [closing], [], by simp⟩

/-- A construction is the same in both layouts. -/
theorem construction_layouts {text : List Char} (free : LayoutFree text)
    (first second : Layout) : construction first text = construction second text := by
  unfold construction
  split
  · cases found : constructionParts? text with
    | none => rfl
    | some parts =>
      have within := (infix_of_constructionParts found).2.1
      have same : (splitArguments parts.arguments).map (code first) =
          (splitArguments parts.arguments).map (code second) :=
        List.map_congr_left fun argument member =>
          code_layouts (free.of_infix ((infix_of_mem_splitArguments member).trans within)) _ _
      simp only [same]
  · rfl

end Literal

namespace Value

open Literal (LayoutFree)

/-- A value is written alike in both layouts. -/
theorem code_layouts {text : String} (free : LayoutFree text.toList) (first second : Layout) :
    code first text = code second text :=
  congrArg String.ofList (Literal.code_layouts free first second)

/-- Values are written alike in both layouts if each of them is. -/
theorem map_code_layouts {texts : List String} (free : ∀ text ∈ texts, LayoutFree text.toList)
    (first second : Layout) : texts.map (code first) = texts.map (code second) :=
  List.map_congr_left fun text member => code_layouts (free text member) first second

/-- The right-hand side of an assignment is the same in both layouts. -/
theorem render_layouts {value : String} (free : LayoutFree value.toList) (first second : Layout)
    (shape : Shape) (floatContext : Bool) :
    render first shape floatContext value = render second shape floatContext value := by
  have trimmed := free.of_infix (Text.trim_infix value.toList)
  have literal := Literal.code_layouts trimmed first second
  have construction := Literal.construction_layouts trimmed first second
  unfold render renderTrimmed
  split <;> simp only [literal, construction]

end Value

open Literal (LayoutFree)

/-- A chain is the same in both layouts if the arguments of its segments are. -/
theorem Chain.code_layouts {segments : List Segment}
    (free : ∀ segment ∈ segments, ∀ text ∈ segment.arguments.getD [], LayoutFree text.toList)
    (first second : Layout) (classes : List String) (frame : Option Frame) :
    code first classes frame segments = code second classes frame segments := by
  rw [code_eq_intercalate, code_eq_intercalate]
  refine congrArg (".".intercalate) (List.map_congr_left fun segment member => ?_)
  have same : Value.codes first (segment.arguments.getD []) =
      Value.codes second (segment.arguments.getD []) :=
    congrArg (", ".intercalate) (Value.map_code_layouts (free segment member) first second)
  unfold Segment.code
  cases segment.resolve classes frame <;> cases arguments : segment.arguments <;>
    simp_all

/-- A parameter is the same in both layouts if its default is. -/
theorem Parameter.code_layouts {parameter : Parameter}
    (free : ∀ text ∈ parameter.default, LayoutFree text.toList) (first second : Layout) :
    parameter.code first = parameter.code second := by
  unfold Parameter.code
  cases default : parameter.default with
  | none => simp only [Option.map_none]
  | some text => simp only [Option.map_some, Value.code_layouts (free text default) first second]

/-- The header of a function is the same in both layouts if the defaults of its parameters
are. -/
theorem Function.header_layouts {function : Function}
    (free : ∀ parameter ∈ function.parameters, ∀ text ∈ parameter.default,
      LayoutFree text.toList)
    (first second : Layout) (modifiers : Modifiers) (className : String) :
    function.header first modifiers className = function.header second modifiers className := by
  have same : function.parameters.mapM (Parameter.code first) =
      function.parameters.mapM (Parameter.code second) :=
    mapM_congr fun parameter member => Parameter.code_layouts (free parameter member) first second
  unfold header
  rw [same]

end Treescribe
