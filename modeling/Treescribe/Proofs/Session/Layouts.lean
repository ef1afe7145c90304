import Treescribe.Proofs.Session.Emissions
import Treescribe.Proofs.Value.Layouts

/-!
# Both layouts of a program

A session decides what to do from all it holds but its emitter, apart from the layout of
values. Where the values of a program are written alike in both layouts, a pretty and a
compact transcription therefore ask the same of their emitters, one of which adds spaces
and line feeds of its own.
-/

namespace Treescribe

open Literal (LayoutFree)

/-- A text without its spaces and line feeds. -/
def Text.unspaced (text : List Char) : List Char :=
  text.filter fun c => c != ' ' && c != '\n'

/-- What is left of two texts without spaces and line feeds is left of each. -/
@[simp] theorem Text.unspaced_append (first second : List Char) :
    unspaced (first ++ second) = unspaced first ++ unspaced second :=
  List.filter_append ..

/-- The values, defaults and arguments of a node. -/
def Node.valueTexts (node : Node) : List String :=
  match node.content with
  | .function function => function.parameters.flatMap (·.default.toList)
  | .assignment assignment => assignment.value.toList
  | .print values _ => values
  | .returnStatement value => value.toList
  | .call _ arguments => arguments
  | .chain segments => segments.flatMap (·.arguments.getD [])
  | _ => []

/-- The values, defaults and arguments of a program. -/
def Program.valueTexts (program : Program) : List String :=
  program.nodes.flatMap Node.valueTexts

/-- What a call adds to a sink beside spaces and line feeds. -/
def Call.solid : Call → List Char
  | .write text _ terminated => Text.unspaced text.toList ++ if terminated then [';'] else []
  | _ => []

namespace Emitter

/-- Repeated spaces or line feeds are left out of a text without them. -/
theorem unspaced_repeated (count : Nat) {c : Char} (blank : c = ' ' ∨ c = '\n') :
    Text.unspaced (repeated count c).toList = [] := by
  rcases blank with rfl | rfl <;> simp [Text.unspaced, repeated]

/-- Layout adds nothing but spaces and line feeds. -/
theorem unspaced_laidOut (emitter : Emitter) (text : String) (newlines : Nat)
    (terminated : Bool) :
    Text.unspaced (emitter.laidOut text newlines terminated).toList =
      (Call.write text newlines terminated).solid := by
  have indented : Text.unspaced (emitter.indentation text).toList = [] := by
    unfold indentation
    split
    · exact unspaced_repeated _ (.inl rfl)
    · rfl
  have ended : Text.unspaced
      (if emitter.layout = .pretty then repeated newlines '\n' else "").toList = [] := by
    split
    · exact unspaced_repeated _ (.inr rfl)
    · rfl
  have closed : Text.unspaced (if terminated then ";" else "").toList =
      if terminated then [';'] else [] := by
    cases terminated <;> rfl
  unfold laidOut
  simp only [String.toList_append, Text.unspaced_append, indented, ended, closed]
  simp [Call.solid]

/-- A call that cannot fail adds what it holds, spaces and line feeds aside. -/
theorem unspaced_next {emitter : Emitter} (unlimited : emitter.sink.limit = none) (call : Call) :
    Text.unspaced (emitter.next call).sink.text.toList =
      Text.unspaced emitter.sink.text.toList ++ call.solid := by
  cases call with
  | write text newlines terminated =>
    rw [next_write_of_unlimited unlimited, ← unspaced_laidOut emitter, ← Text.unspaced_append,
      ← String.toList_append]
  | indent | dedent => simp [next, perform, Call.solid]

/-- Calls that cannot fail add what they hold, spaces and line feeds aside. -/
theorem unspaced_after {emitter : Emitter} (unlimited : emitter.sink.limit = none)
    (calls : List Call) :
    Text.unspaced (emitter.after calls).sink.text.toList =
      Text.unspaced emitter.sink.text.toList ++ calls.flatMap Call.solid := by
  induction calls generalizing emitter with
  | nil => simp [after]
  | cons call rest inductionHypothesis =>
    have unlimitedNext : (emitter.next call).sink.limit = none := by rw [next_limit, unlimited]
    have later := inductionHypothesis unlimitedNext
    rw [unspaced_next unlimited, List.append_assoc] at later
    exact later

end Emitter

namespace Session

/-- A session but for its emitter. -/
def detached (session : Session) : Session :=
  { session with emitter := { layout := .compact } }

/-- A session behind an action, but for its emitter. -/
def actDetached (session : Session) (action : Action) : Session :=
  (session.act action).2.detached

/-- What an action makes of a session, emitters aside, depends on nothing of the emitter. -/
theorem act_detached (session : Session) (action : Action) :
    (session.act action).2.detached = actDetached session.detached action := by
  cases action with
  | emit call =>
    rw [actDetached, act_emit, act_emit]
    rfl
  | enterScope | leaveScope | declare | register | setAccess | setStatic | openPackage | note =>
    rfl

/-- An assignment is planned without regard to the emitter if its value is. -/
theorem assign_detached (session : Session) {assignment : Assignment}
    (free : ∀ text ∈ assignment.value, LayoutFree text.toList) (frame : Frame) (hasChain : Bool)
    (tag : Option TypeTag) :
    session.assign frame hasChain assignment tag =
      session.detached.assign frame hasChain assignment tag := by
  have same : ∀ shape floatContext,
      assignment.value.map (Value.render session.layout shape floatContext) =
        assignment.value.map (Value.render session.detached.layout shape floatContext) := by
    intro shape floatContext
    cases value : assignment.value with
    | none => simp only [Option.map_none]
    | some text =>
      exact congrArg some (Value.render_layouts (free text value) _ _ shape floatContext)
  have declared : session.detached.declaration frame hasChain assignment tag =
      session.declaration frame hasChain assignment tag := rfl
  have tokens : session.detached.declarationTokens = session.declarationTokens := rfl
  unfold assign
  simp only [same, declared, tokens]

/-- A node is entered without regard to the emitter if its values are written so. -/
theorem enterNode_detached {node : Node}
    (free : ∀ text ∈ node.valueTexts, LayoutFree text.toList) (session : Session) :
    session.enterNode node = session.detached.enterNode node := by
  revert free
  unfold enterNode Node.valueTexts
  cases node.content with
  | function function =>
    intro free
    have defaults : ∀ parameter ∈ function.parameters, ∀ text ∈ parameter.default,
        LayoutFree text.toList := fun parameter member text default =>
      free text (List.mem_flatMap.mpr ⟨parameter, member, by simpa using default⟩)
    have same := Function.header_layouts defaults session.layout session.detached.layout
    simp only [enterFunction, same]
    rfl
  | assignment assignment =>
    intro free
    have values : ∀ text ∈ assignment.value, LayoutFree text.toList :=
      fun text value => free text (by simpa using value)
    have same := fun frame => session.assign_detached values frame node.hasChain
    simp only [enterAssignment, same]
    rfl
  | print values newline =>
    intro free
    simp only [enterPrint, Value.map_code_layouts free session.layout session.detached.layout]
  | returnStatement value =>
    intro free
    cases value with
    | none => simp only [enterReturn]
    | some text =>
      simp only [enterReturn,
        Value.code_layouts (free text (by simp)) session.layout session.detached.layout]
  | call name arguments =>
    intro free
    simp only [Value.codes,
      Value.map_code_layouts free session.layout session.detached.layout]
  | chain segments =>
    intro free
    have arguments : ∀ segment ∈ segments, ∀ text ∈ segment.arguments.getD [],
        LayoutFree text.toList := fun segment member text argument =>
      free text (List.mem_flatMap.mpr ⟨segment, member, argument⟩)
    have same := Chain.code_layouts arguments session.layout session.detached.layout
    simp only [enterChain, same]
    rfl
  | package | importBlock | importPath | classBody | accessBlock | staticBlock | ifBranch
  | elseIfBranch | elseBranch =>
    intro _
    rfl

/-- A visit is planned without regard to the emitter if the values of the node it enters
are written so. -/
theorem plan_detached {visit : Visit}
    (free : ∀ node, visit = .enter (.inner node) → ∀ text ∈ node.valueTexts, LayoutFree text.toList)
    (session : Session) : session.plan visit = session.detached.plan visit := by
  rcases visit with ⟨program | node⟩ | ⟨program | node⟩
  · rfl
  · exact enterNode_detached (free node rfl) session
  · rfl
  · unfold plan exitNode
    cases node.content <;> rfl

/-- Two sessions that may differ in their layouts: they are the same but for their emitters,
neither of which has a limit, and have written the same but for spaces and line feeds. -/
structure Alike (first second : Session) : Prop where
  detached : first.detached = second.detached
  unlimited : first.emitter.sink.limit = none
  unlimitedOther : second.emitter.sink.limit = none
  unspaced : Text.unspaced first.emitter.sink.text.toList =
    Text.unspaced second.emitter.sink.text.toList

/-- Sessions that are alike plan a visit alike if the values of the node it enters are
written alike. -/
theorem Alike.plan {first second : Session} (alike : Alike first second) {visit : Visit}
    (free : ∀ node, visit = .enter (.inner node) →
      ∀ text ∈ node.valueTexts, LayoutFree text.toList) :
    first.plan visit = second.plan visit := by
  rw [plan_detached free first, plan_detached free second, alike.detached]

/-- Sessions that are alike stay so when they carry out the same actions, and neither fails. -/
theorem Alike.run {first second : Session} (alike : Alike first second)
    (actions : List Action) :
    (first.run actions).1 = (second.run actions).1 ∧
      Alike (first.run actions).2 (second.run actions).2 := by
  obtain ⟨firstFinal, firstRan, firstReached⟩ := run_of_unlimited alike.unlimited actions
  obtain ⟨secondFinal, secondRan, secondReached⟩ := run_of_unlimited alike.unlimitedOther actions
  have firstDetached := run_view act_detached firstRan
  have secondDetached := run_view act_detached secondRan
  rw [firstRan, secondRan]
  refine ⟨rfl, ⟨?_, ?_, ?_, ?_⟩⟩
  · rw [firstDetached, secondDetached, alike.detached]
  · rw [firstReached, Emitter.after_limit, alike.unlimited]
  · rw [secondReached, Emitter.after_limit, alike.unlimitedOther]
  · rw [firstReached, secondReached, Emitter.unspaced_after alike.unlimited,
      Emitter.unspaced_after alike.unlimitedOther, alike.unspaced]

/-- Sessions that are alike answer alike to a visit and stay so if the values of the node it
enters are written alike. -/
theorem Alike.visit {first second : Session} (alike : Alike first second) {visit : Visit}
    (free : ∀ node, visit = .enter (.inner node) →
      ∀ text ∈ node.valueTexts, LayoutFree text.toList) :
    (first.visit visit).1 = (second.visit visit).1 ∧
      Alike (first.visit visit).2 (second.visit visit).2 := by
  have planned := alike.plan free
  unfold Session.visit
  rw [planned]
  cases second.plan visit with
  | error unknown => exact ⟨rfl, alike⟩
  | ok actions => exact alike.run actions

/-- Sessions that are alike make the same calls at a visit if the values of the node it
enters are written alike. -/
theorem Alike.calls {first second : Session} (alike : Alike first second) {visit : Visit}
    (free : ∀ node, visit = .enter (.inner node) →
      ∀ text ∈ node.valueTexts, LayoutFree text.toList) :
    (first.emissions visit).map Emission.call = (second.emissions visit).map Emission.call := by
  rw [map_call_emissions alike.unlimited, map_call_emissions alike.unlimitedOther, plannedCalls,
    plannedCalls, alike.plan free]

end Session

namespace Program

/-- A node that is entered in the walk through a program is one of its nodes. -/
theorem mem_nodes_of_visit {program : Program} {node : Node}
    (entered : .enter (.inner node) ∈ program.visits) : node ∈ program.nodes := by
  have subject : .inner node ∈ program.visits.filterMap Visit.entered? :=
    List.mem_filterMap.mpr ⟨_, entered, rfl⟩
  rw [program.nested_visits.entered, subjects] at subject
  simpa using subject

/-- If the values of a program that have the mark of verbatim strings have no line feed, its
pretty and its compact transcription make the same calls, end alike, and write the same text
but for spaces and line feeds. -/
theorem layouts_agree (program : Program)
    (free : ∀ text ∈ program.valueTexts,
      Literal.tripleBacktick <:+: text.toList → '\n' ∉ text.toList)
    (preamble : Bool) (written : String) :
    (program.emissions ⟨.pretty, preamble⟩ { text := written }).map Emission.call =
        (program.emissions ⟨.compact, preamble⟩ { text := written }).map Emission.call ∧
      (program.transcribe ⟨.pretty, preamble⟩ { text := written }).result =
        (program.transcribe ⟨.compact, preamble⟩ { text := written }).result ∧
      Text.unspaced (program.transcribe ⟨.pretty, preamble⟩ { text := written }).text.toList =
        Text.unspaced (program.transcribe ⟨.compact, preamble⟩ { text := written }).text.toList := by
  have layoutFree : ∀ visit ∈ program.visits, ∀ node, visit = .enter (.inner node) →
      ∀ text ∈ node.valueTexts, LayoutFree text.toList := by
    rintro _ member node rfl text value
    exact free text (List.mem_flatMap.mpr ⟨node, mem_nodes_of_visit member, value⟩)
  have alike : Session.Alike (Session.start ⟨.pretty, preamble⟩ { text := written })
      (Session.start ⟨.compact, preamble⟩ { text := written }) := ⟨rfl, rfl, rfl, rfl⟩
  obtain ⟨ended, final, calls⟩ := Session.listener.run_related
    (fun visit member first second alike => by
      simpa using alike.visit (layoutFree visit member)) alike
  refine ⟨?_, ?_, ?_⟩
  · unfold emissions
    rw [Listener.calls_eq_trace, Listener.calls_eq_trace, List.map_flatMap, List.map_flatMap,
      List.flatMap_def, List.flatMap_def]
    refine congrArg List.flatten (map_eq_of_forall₂ (calls.imp ?_)).symm
    rintro ⟨visit, first⟩ ⟨_, second⟩ ⟨rfl, member, alike⟩
    exact (alike.calls (layoutFree visit member)).symm
  · rw [transcribe_result, transcribe_result, ended]
  · rw [Transcript.text, Transcript.text, transcribe_session, transcribe_session]
    exact final.unspaced

/-- A class with a verbatim string of one line and a quoted text of two. -/
def quotations : Program :=
  ⟨1, [⟨2, .classBody "Texts",
    [⟨3, .assignment ⟨"motto", none, some "\x60\x60\x60say \"so\"\x60\x60\x60"⟩, []⟩,
      ⟨4, .print ["'first\nsecond'"] true, []⟩]⟩]⟩

/-- The quotations are written alike in both layouts. -/
theorem layouts_agree_quotations :
    (∀ text ∈ quotations.valueTexts,
      Literal.tripleBacktick <:+: text.toList → '\n' ∉ text.toList) ∧
    Text.unspaced (quotations.transcribe ⟨.pretty, true⟩ {}).text.toList =
      Text.unspaced (quotations.transcribe ⟨.compact, true⟩ {}).text.toList := by
  have free : ∀ text ∈ quotations.valueTexts,
      Literal.tripleBacktick <:+: text.toList → '\n' ∉ text.toList := by decide
  exact ⟨free, (quotations.layouts_agree free true "").2.2⟩

end Program

end Treescribe
