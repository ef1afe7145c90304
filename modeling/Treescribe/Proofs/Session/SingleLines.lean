import Treescribe.Proofs.Session.Layouts
import Treescribe.Proofs.Session.Limits
import Treescribe.Proofs.Session.Lines
import Treescribe.Proofs.Value.SingleLines

/-!
# Compact text is a single line

What a compact transcription writes has no line feed, if the texts of its program have none
or stand for values that are joined. The emitter adds no line feed of its own, so it is enough
that none is in the calls that a visit plans. Nothing is asked of the end of the
transcription: what was written before a failure is a single line, too.
-/

namespace Treescribe

open Literal (Joinable)
open Text (SingleLine)

/-- The names, targets and conditions of a node. Types are read and not written as they
stand, so they are left out. -/
def Node.plainTexts (node : Node) : List String :=
  match node.content with
  | .package path | .importPath path => path
  | .classBody name => [name]
  | .function function => function.name :: function.parameters.map (·.name)
  | .assignment assignment => [assignment.target]
  | .ifBranch text | .elseIfBranch text => [text]
  | .call name _ => [name]
  | .chain segments => segments.map (·.name)
  | _ => []

/-- The names, targets and conditions of a program. -/
def Program.plainTexts (program : Program) : List String :=
  program.nodes.flatMap Node.plainTexts

/-- A node that compact layout writes on a single line. -/
structure Node.FitsLine (node : Node) : Prop where
  plain : ∀ text ∈ node.plainTexts, SingleLine text.toList
  values : ∀ text ∈ node.valueTexts, Joinable text.toList

/-- A call that writes no line feed of the program. -/
def Call.StaysOnLine : Call → Prop
  | .write text _ _ => SingleLine text.toList
  | .indent | .dedent => True

instance : DecidablePred Call.StaysOnLine
  | .write text _ _ => inferInstanceAs (Decidable (SingleLine text.toList))
  | .indent | .dedent => inferInstanceAs (Decidable True)

/-- Actions that write no line feed of the program. -/
def Action.StayOnLine (actions : List Action) : Prop :=
  ∀ call ∈ actions.filterMap Action.call?, call.StaysOnLine

namespace Action

/-- Actions without calls stay on their line. -/
theorem stayOnLine_of_silent {actions : List Action} (silent : actions.filterMap call? = []) :
    StayOnLine actions := by
  simp [StayOnLine, silent]

/-- Actions with a single write stay on their line if its text does. -/
theorem stayOnLine_of_write {actions : List Action} {text : String} {newlines : Nat}
    {terminated : Bool} (written : actions.filterMap call? = [.write text newlines terminated])
    (single : SingleLine text.toList) : StayOnLine actions := by
  intro call member
  rw [written, List.mem_singleton] at member
  rw [member]
  exact single

/-- A header stays on its line if its text does, whatever is done behind it without a call. -/
theorem stayOnLine_openBlock {header : String} (single : SingleLine header.toList)
    {others : List Action} (silent : others.filterMap call? = []) :
    StayOnLine (openBlock header ++ others) := by
  intro call member
  simp only [List.filterMap_append, silent, List.append_nil, openBlock, List.filterMap_cons, call?,
    List.filterMap_nil, List.mem_cons, List.not_mem_nil, or_false] at member
  rcases member with rfl | rfl
  · rw [Call.StaysOnLine, String.toList_append, Text.singleLine_append_iff]
    exact ⟨single, by decide⟩
  · trivial

end Action

open Treescribe.Action (StayOnLine)

namespace Session

/-- The target of an assignment is written on a single line if it is one. -/
theorem singleLine_targetCode {target : String} (single : SingleLine target.toList) :
    SingleLine (targetCode target).toList := by
  rw [targetCode, String.toList_ofList]
  apply SingleLine.dotLinks
  exact single.of_subset (Text.dropLeadingFrom_suffix _ _ _).subset

/-- What is written before the target of an assignment is a single line if its value can be
joined. -/
theorem singleLine_declarationTokens (session : Session) (frame : Frame) (hasChain : Bool)
    {assignment : Assignment} (joinable : ∀ text ∈ assignment.value, Joinable text.toList)
    (tag : Option TypeTag) :
    ∀ token ∈ session.declarationTokens (session.declaration frame hasChain assignment tag),
      SingleLine token.toList := by
  intro token member
  rcases List.mem_append.mp member with modifier | type
  · split at modifier
    · exact session.modifiers.singleLine_keywords none token modifier
    · cases modifier
  · simp only [Option.mem_toList, Option.map_eq_some_iff] at type
    obtain ⟨type, written, rfl⟩ := type
    apply Declaration.singleLine_type _ written
    intro name constructs
    exact Shape.singleLine_of_classify joinable constructs

/-- An assignment stays on its line. -/
theorem stayOnLine_assign {session : Session} (compact : session.layout = .compact)
    (frame : Frame) (hasChain : Bool) {assignment : Assignment}
    (target : SingleLine assignment.target.toList)
    (joinable : ∀ text ∈ assignment.value, Joinable text.toList) (tag : Option TypeTag) :
    StayOnLine (session.assign frame hasChain assignment tag) := by
  intro call member
  rw [assign_calls, List.mem_singleton] at member
  rw [member, assignmentCall]
  have start : SingleLine (" ".intercalate ((if frame.isDeclared assignment.target then []
      else session.declarationTokens (session.declaration frame hasChain assignment tag)) ++
        [targetCode assignment.target])).toList := by
    apply Text.singleLine_join (by decide)
    intro token tokenMem
    rcases List.mem_append.mp tokenMem with before | last
    · split at before
      · cases before
      · exact session.singleLine_declarationTokens frame hasChain joinable tag token before
    · rw [List.mem_singleton.mp last]
      exact singleLine_targetCode target
  cases hasChain with
  | true =>
    simp only [if_true, Call.StaysOnLine, String.toList_append, Text.singleLine_append_iff]
    exact ⟨start, by decide⟩
  | false =>
    simp only [Bool.false_eq_true, if_false, Call.StaysOnLine, String.toList_append,
      Text.singleLine_append_iff]
    refine ⟨start, ?_⟩
    cases value : assignment.value with
    | none =>
      rw [Option.elim_none]
      decide
    | some text =>
      rw [compact, Option.elim_some, String.toList_append, Text.singleLine_append_iff]
      exact ⟨by decide, Value.singleLine_render (joinable text value) _ _⟩

/-- Printed values stay on their line. -/
theorem stayOnLine_enterPrint {session : Session} (compact : session.layout = .compact)
    {values : List String} (joinable : ∀ text ∈ values, Joinable text.toList) (newline : Bool) :
    StayOnLine (session.enterPrint values newline) := by
  unfold enterPrint
  extract_lets written
  split
  · exact Action.stayOnLine_of_silent rfl
  · apply Action.stayOnLine_of_write rfl
    apply Text.singleLine_join (by decide)
    intro part member
    obtain ⟨code, codeMem, rfl⟩ := List.mem_map.mp member
    simp only [String.toList_append, Text.singleLine_append_iff]
    refine ⟨⟨by decide, ?_⟩, by decide⟩
    rcases List.mem_append.mp codeMem with value | last
    · obtain ⟨text, textMem, rfl⟩ := List.mem_map.mp value
      rw [compact]
      exact Value.singleLine_code (joinable text textMem)
    · split at last
      · rw [List.mem_singleton.mp last]
        decide
      · cases last

/-- Entering a node that fits on a line stays on it. -/
theorem stayOnLine_enterNode {session : Session} (compact : session.layout = .compact)
    {node : Node} (fits : node.FitsLine) {actions : List Action}
    (planned : session.enterNode node = .ok actions) : StayOnLine actions := by
  obtain ⟨plain, values⟩ := fits
  unfold Node.plainTexts at plain
  unfold Node.valueTexts at values
  unfold enterNode at planned
  cases content : node.content with
  | package path =>
    simp only [content] at plain planned
    cases planned
    unfold enterPackage
    split
    · exact Action.stayOnLine_of_silent rfl
    · apply Action.stayOnLine_openBlock _ rfl
      rw [String.toList_append, Text.singleLine_append_iff]
      exact ⟨by decide, Text.singleLine_join (by decide) plain⟩
  | importPath path =>
    simp only [content] at plain planned
    cases planned
    apply Action.stayOnLine_of_write rfl
    rw [String.toList_append, Text.singleLine_append_iff]
    exact ⟨by decide, Text.singleLine_join (by decide) plain⟩
  | classBody name =>
    simp only [content, List.mem_singleton, forall_eq] at plain planned
    cases planned
    apply Action.stayOnLine_openBlock _ rfl
    rw [String.toList_append, Text.singleLine_append_iff]
    exact ⟨by decide, plain⟩
  | function function =>
    simp only [content] at plain values planned
    unfold enterFunction at planned
    split at planned
    · cases planned
      exact Action.stayOnLine_of_silent rfl
    · obtain ⟨header, written, opened⟩ := bind_eq_ok_iff.mp planned
      cases opened
      apply Action.stayOnLine_openBlock _ rfl
      rw [compact] at written
      apply Function.singleLine_header (plain function.name (by simp)) _ _ written
      · intro parameter member
        exact plain parameter.name (List.mem_cons_of_mem _ (List.mem_map_of_mem member))
      · intro parameter member text default
        exact values text (List.mem_flatMap.mpr ⟨parameter, member, by simpa using default⟩)
  | assignment assignment =>
    simp only [content, List.mem_singleton, forall_eq, Option.mem_toList] at plain values planned
    obtain ⟨tag, -, planned⟩ := bind_eq_ok_iff.mp planned
    split at planned
    · cases planned
      exact Action.stayOnLine_of_silent rfl
    · cases planned
      exact stayOnLine_assign compact _ _ plain values tag
  | print texts newline =>
    simp only [content] at values planned
    cases planned
    exact stayOnLine_enterPrint compact values newline
  | returnStatement value =>
    simp only [content, Option.mem_toList] at values planned
    cases planned
    unfold enterReturn
    split
    · exact Action.stayOnLine_of_write rfl (by decide)
    · split
      · rename_i text
        apply Action.stayOnLine_of_write rfl
        rw [compact, String.toList_append, Text.singleLine_append_iff]
        exact ⟨by decide, Value.singleLine_code (values text rfl)⟩
      · exact Action.stayOnLine_of_write rfl (by decide)
  | ifBranch text | elseIfBranch text =>
    simp only [content, List.mem_singleton, forall_eq] at plain planned
    cases planned
    rw [← List.append_nil (Action.openBlock _)]
    apply Action.stayOnLine_openBlock _ rfl
    simp only [String.toList_append, Text.singleLine_append_iff]
    exact ⟨⟨by decide, plain.of_subset (Condition.code_infix _ _).subset⟩, by decide⟩
  | elseBranch =>
    simp only [content] at planned
    cases planned
    rw [← List.append_nil (Action.openBlock _)]
    exact Action.stayOnLine_openBlock (by decide) rfl
  | call name arguments =>
    simp only [content, List.mem_singleton, forall_eq] at plain values planned
    cases planned
    apply Action.stayOnLine_of_write rfl
    rw [compact]
    simp only [String.toList_append, Text.singleLine_append_iff]
    exact ⟨⟨⟨plain, by decide⟩, Value.singleLine_codes values⟩, by decide⟩
  | chain segments =>
    simp only [content] at plain values planned
    cases planned
    have calls : (session.enterChain segments).filterMap Action.call? =
        [.write (Chain.code session.layout session.classes session.scopes.head? segments) 1
          true] := by
      rw [enterChain, List.filterMap_append, filterMap_call?_notes]
      rfl
    apply Action.stayOnLine_of_write calls
    rw [compact]
    apply Chain.singleLine_code
    · exact fun segment member => plain segment.name (List.mem_map_of_mem member)
    · exact fun segment member text argument =>
        values text (List.mem_flatMap.mpr ⟨segment, member, argument⟩)
  | importBlock | accessBlock | staticBlock =>
    simp only [content] at planned
    cases planned
    exact Action.stayOnLine_of_silent rfl

/-- A visit stays on its line if the node that it enters fits on one. -/
theorem stayOnLine_plan {session : Session} (compact : session.layout = .compact) {visit : Visit}
    (fits : ∀ node, visit = .enter (.inner node) → node.FitsLine) {actions : List Action}
    (planned : session.plan visit = .ok actions) : StayOnLine actions := by
  have footer : ∀ call ∈ footerCalls, call.StaysOnLine := by decide
  rcases visit with ⟨program | node⟩ | ⟨program | node⟩
  · cases planned
    intro call member
    have preamble : ∀ call ∈ preambleActions.filterMap Action.call?, call.StaysOnLine := by decide
    split at member
    · exact preamble call member
    · cases member
  · exact stayOnLine_enterNode compact (fits node rfl) planned
  · cases planned
    intro call member
    split at member
    · exact footer call member
    · cases member
  · cases planned
    intro call member
    have calls := session.plannedCalls_exit node
    simp only [plannedCalls, plan] at calls
    rw [calls] at member
    split at member
    · exact footer call member
    · cases member

end Session

/-- Compact layout adds no line feed to a text. -/
theorem Emitter.singleLine_laidOut {emitter : Emitter} (compact : emitter.layout = .compact)
    {text : String} (single : SingleLine text.toList) (newlines : Nat) (terminated : Bool) :
    SingleLine (emitter.laidOut text newlines terminated).toList := by
  have indented : emitter.indentation text = "" := by simp [indentation, compact]
  have unbroken : (if emitter.layout = .pretty then repeated newlines '\n' else "") = "" := by
    simp [compact]
  have ended : SingleLine (if terminated then ";" else "").toList := by
    cases terminated <;> decide
  rw [laidOut, indented, unbroken]
  simp only [String.toList_append, Text.singleLine_append_iff]
  exact ⟨⟨⟨by decide, single⟩, ended⟩, by decide⟩

namespace Session

/-- The text of a session is that of an earlier one and a single line behind it. -/
def Continues (before after : Session) : Prop :=
  ∃ added, after.emitter.sink.text = before.emitter.sink.text ++ added ∧ SingleLine added.toList

/-- A session continues itself. -/
theorem Continues.refl (session : Session) : Continues session session :=
  ⟨"", by simp, by decide⟩

/-- What is written after each other on one line is on one line. -/
theorem Continues.trans {before middle after : Session} (first : Continues before middle)
    (second : Continues middle after) : Continues before after := by
  obtain ⟨early, held, earlySingle⟩ := first
  obtain ⟨late, grown, lateSingle⟩ := second
  refine ⟨early ++ late, by rw [grown, held, String.append_assoc], ?_⟩
  rw [String.toList_append, Text.singleLine_append_iff]
  exact ⟨earlySingle, lateSingle⟩

/-- An action continues the line, whether or not it succeeds. -/
theorem continues_act {session : Session} (compact : session.layout = .compact) {action : Action}
    (stays : ∀ call ∈ action.call?, call.StaysOnLine) :
    Continues session (session.act action).2 := by
  rw [Continues, act_emitter]
  cases called : action.call? with
  | none => exact ⟨"", by simp, by decide⟩
  | some call =>
    have single := stays call called
    cases call with
    | indent | dedent => exact ⟨"", by simp [Emitter.next, Emitter.perform], by decide⟩
    | write text newlines terminated =>
      rw [Option.elim_some, Emitter.next_write]
      have laidOut := Emitter.singleLine_laidOut compact single newlines terminated
      cases taken : session.emitter.sink.append
          (session.emitter.laidOut text newlines terminated) with
      | error refusal => exact ⟨"", by simp [Except.toOption], by decide⟩
      | ok grown =>
        refine ⟨_, ?_, laidOut⟩
        rw [Sink.append_eq_ok taken]
        rfl

/-- Actions continue the line, as far as they are carried out. -/
theorem continues_run {session : Session} (compact : session.layout = .compact)
    {actions : List Action} (stay : StayOnLine actions) :
    Continues session (session.run actions).2 := by
  induction actions generalizing session with
  | nil => exact .refl session
  | cons action rest inductionHypothesis =>
    rw [StayOnLine, List.filterMap_cons] at stay
    have first : Continues session (session.act action).2 := by
      apply continues_act compact
      intro call called
      rw [Option.mem_def.mp called] at stay
      exact stay call (by simp)
    have compactNext : (session.act action).2.layout = .compact :=
      (congrArg (·.1.layout) (session.act_setting action)).trans compact
    have others : StayOnLine rest := by
      intro call member
      apply stay
      cases action.call? <;> simp [member]
    rw [run_cons]
    rcases answer : session.act action with ⟨_ | ⟨⟩, next⟩ <;> rw [answer] at first compactNext
    · exact first
    · exact first.trans (inductionHypothesis compactNext others)

/-- A visit continues the line if the node that it enters fits on one. -/
theorem continues_visit {session : Session} (compact : session.layout = .compact) {visit : Visit}
    (fits : ∀ node, visit = .enter (.inner node) → node.FitsLine) :
    Continues session (session.visit visit).2 := by
  unfold Session.visit
  cases planned : session.plan visit with
  | error unknown => exact .refl session
  | ok actions => exact continues_run compact (stayOnLine_plan compact fits planned)

/-- Visits continue the line, as far as they are made, if the nodes that they enter fit on
one. -/
theorem continues_visits {session : Session} (compact : session.layout = .compact)
    {visits : List Visit}
    (fits : ∀ node, .enter (.inner node) ∈ visits → node.FitsLine) :
    Continues session (listener.run visits session).2 := by
  induction visits generalizing session with
  | nil => exact .refl session
  | cons visit rest inductionHypothesis =>
    have first : Continues session (session.visit visit).2 := by
      apply continues_visit compact
      rintro node rfl
      exact fits node (by simp)
    have compactNext : (session.visit visit).2.layout = .compact :=
      (congrArg (·.1.layout) (session.visit_setting visit)).trans compact
    rw [run_visit_cons]
    rcases answer : session.visit visit with ⟨_ | ⟨⟩, next⟩ <;> rw [answer] at first compactNext
    · exact first
    · apply first.trans
      exact inductionHypothesis compactNext fun node member => fits node (by simp [member])

end Session

namespace Program

/-- What a compact transcription adds to its sink, however it ends, has no line feed, if the
names, targets and conditions of the program have none and its values can be joined. -/
theorem compact_single_line (program : Program)
    (plain : ∀ text ∈ program.plainTexts, SingleLine text.toList)
    (values : ∀ text ∈ program.valueTexts, Joinable text.toList)
    (preamble : Bool) (sink : Sink) :
    ∃ added, (program.transcribe ⟨.compact, preamble⟩ sink).text = sink.text ++ added ∧
      '\n' ∉ added.toList := by
  have fits : ∀ node, .enter (.inner node) ∈ program.visits → node.FitsLine := by
    intro node entered
    have member := mem_nodes_of_visit entered
    exact ⟨fun text inside => plain text (List.mem_flatMap.mpr ⟨node, member, inside⟩),
      fun text inside => values text (List.mem_flatMap.mpr ⟨node, member, inside⟩)⟩
  have compact : (Session.start ⟨.compact, preamble⟩ sink).layout = .compact := rfl
  obtain ⟨added, grown, single⟩ := Session.continues_visits compact fits
  refine ⟨added, ?_, single⟩
  rw [Transcript.text, transcribe_session]
  exact grown

/-- A class with a verbatim string of three lines, which is assigned and passed on. -/
def proclamation : Program :=
  ⟨1, [⟨2, .package ["town", "hall"], [⟨3, .classBody "Crier",
    [⟨4, .assignment ⟨"text", none, some "\n\x60\x60\x60Hear\r\n\"ye\"\n\n\x60\x60\x60 "⟩, []⟩,
      ⟨5, .function ⟨"cry", [⟨"times", some "Integer", some "1"⟩], false, none⟩,
        [⟨6, .call "shout" ["text", "\x60\x60\x60so\nbe it\x60\x60\x60"], []⟩,
          ⟨7, .assignment ⟨"x", some "Nothing\n", none⟩, []⟩]⟩]⟩]⟩]⟩

/-- The proclamation is written on a single line up to the type that is unknown. -/
theorem compact_single_line_proclamation :
    (∀ text ∈ proclamation.plainTexts, SingleLine text.toList) ∧
    (∀ text ∈ proclamation.valueTexts, Joinable text.toList) ∧
    (∃ text ∈ proclamation.valueTexts, '\n' ∈ text.toList) ∧
    ∃ added, (proclamation.transcribe ⟨.compact, true⟩ {}).text = "" ++ added ∧
      '\n' ∉ added.toList := by
  have plain : ∀ text ∈ proclamation.plainTexts, SingleLine text.toList := by decide
  have values : ∀ text ∈ proclamation.valueTexts, Joinable text.toList := by decide
  exact ⟨plain, values, by decide, proclamation.compact_single_line plain values true {}⟩

end Program

end Treescribe
