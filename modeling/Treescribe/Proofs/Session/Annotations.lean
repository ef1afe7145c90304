import Treescribe.Proofs.Session.Emissions
import Treescribe.Proofs.Session.Scopes

/-!
# Checked annotations

A transcription looks at the type of every assignment, and at the types in the header of
every function in a class: the one it returns, then those of its parameters. Where the
sink has no limit, nothing else can stop it, so it ends as the first of these annotations
in preorder that names no type says, whatever the options are.
-/

namespace Treescribe

namespace TypeTag

/-- Whether a text is the name of a type, white space around it aside. -/
def isSpelled (text : String) : Bool :=
  (all.map spelling).contains (String.ofList (Text.trim text.toList))

/-- A text is read unless it is the name of no type. -/
theorem failure?_read (text : String) :
    failure? (read text) =
      if isSpelled text then none else some ⟨String.ofList (Text.trim text.toList)⟩ := by
  unfold read isSpelled
  generalize String.ofList (Text.trim text.toList) = trimmed
  cases found : all.find? (·.spelling == trimmed) with
  | none =>
    have absent : trimmed ∉ all.map spelling := by
      intro member
      obtain ⟨tag, listed, rfl⟩ := List.mem_map.mp member
      simpa using List.find?_eq_none.mp found tag listed
    simp [failure?, found, absent]
  | some tag =>
    have present : trimmed ∈ all.map spelling :=
      List.mem_map.mpr ⟨tag, List.mem_of_find?_eq_some found, by simpa using List.find?_some found⟩
    simp [failure?, found, present]

/-- The first of some texts that fails to be read is the first that is the name of no
type. -/
theorem findSome?_read (texts : List String) :
    texts.findSome? (fun text => failure? (read text)) =
      (texts.find? fun text => !isSpelled text).map
        fun text => ⟨String.ofList (Text.trim text.toList)⟩ := by
  induction texts with
  | nil => rfl
  | cons text rest inductionHypothesis =>
    rw [List.findSome?_cons, List.find?_cons, failure?_read]
    cases isSpelled text with
    | false => rfl
    | true => exact inductionHypothesis

/-- A text that may be missing fails to be read if it is there and fails. -/
theorem failure?_readOptional (text : Option String) :
    failure? (readOptional text) = text.toList.findSome? fun text => failure? (read text) := by
  cases text with
  | none => rfl
  | some text =>
    simp only [readOptional, Option.toList_some, List.findSome?_singleton]
    cases read text <;> rfl

end TypeTag

/-- A parameter has a text unless its type is unknown. -/
theorem Parameter.failure?_code (layout : Layout) (parameter : Parameter) :
    failure? (parameter.code layout) =
      parameter.type.toList.findSome? fun text => failure? (TypeTag.read text) :=
  (failure?_bind_pure _ _).trans (TypeTag.failure?_readOptional parameter.type)

namespace Function

/-- The annotations in the header of a function, in the order in which they are read. -/
def annotations (function : Function) : List String :=
  function.returnType.toList ++ function.parameters.flatMap (·.type.toList)

/-- The keywords of a function are known unless the type it returns is not. -/
theorem failure?_typeKeywords (function : Function) (className : String) :
    failure? (function.typeKeywords className) =
      function.returnType.toList.findSome? fun text => failure? (TypeTag.read text) := by
  unfold typeKeywords
  cases function.returnType with
  | none => rfl
  | some tag =>
    simp only [Option.toList_some, List.findSome?_singleton]
    exact failure?_bind_pure _ _

/-- A function has a header unless one of its annotations is unknown; the first one is
then reported. -/
theorem failure?_header (function : Function) (layout : Layout) (modifiers : Modifiers)
    (className : String) :
    failure? (function.header layout modifiers className) =
      function.annotations.findSome? fun text => failure? (TypeTag.read text) := by
  have keywords := function.failure?_typeKeywords className
  have parameters :
      failure? (function.parameters.mapM (Parameter.code layout)) =
        (function.parameters.flatMap (·.type.toList)).findSome?
          fun text => failure? (TypeTag.read text) := by
    rw [failure?_mapM, findSome?_flatMap]
    exact findSome?_congr fun parameter _ => parameter.failure?_code layout
  unfold header annotations
  rw [failure?_bind, List.findSome?_append, ← keywords, ← parameters]
  cases function.typeKeywords className with
  | error unknown => rfl
  | ok known => exact failure?_bind_pure _ _

end Function

/-- The annotations that are read on the way into a node below some others: those of an
assignment, and those of a function that has a class above it. -/
def Node.annotations (ancestors : List Node) (node : Node) : List String :=
  match node.content with
  | .assignment assignment => assignment.type.toList
  | .function function => if ancestors.any isClass then function.annotations else []
  | _ => []

/-- The node that a subject is, unless it is the program. -/
def Subject.node? : Subject → Option Node
  | .root _ => none
  | .inner node => some node

/-- The node that a visit enters. -/
def PlacedVisit.entered? (placed : PlacedVisit) : Option (List Node × Node) :=
  match placed.visit with
  | .enter (.inner node) => some (placed.ancestors, node)
  | _ => none

namespace Program

/-- The nodes below a program, each with those above it. -/
def placedNodes (program : Program) : List (List Node × Node) :=
  program.placedVisits.filterMap PlacedVisit.entered?

/-- The annotations of a program that are read. -/
def annotations (program : Program) : List String :=
  program.placedNodes.flatMap fun (ancestors, node) => node.annotations ancestors

/-- The nodes of a program are placed in preorder. -/
theorem map_placedNodes (program : Program) :
    program.placedNodes.map Prod.snd = program.nodes := by
  have entered := program.nested_visits.entered
  have named : ∀ placed : PlacedVisit,
      placed.entered?.map Prod.snd = placed.visit.entered?.bind Subject.node? := by
    rintro ⟨ancestors, ⟨⟨program⟩ | ⟨node⟩⟩ | ⟨subject⟩⟩ <;> rfl
  calc program.placedNodes.map Prod.snd
      = program.placedVisits.filterMap fun placed => placed.visit.entered?.bind Subject.node? := by
        rw [placedNodes, List.map_filterMap]
        exact List.filterMap_congr fun placed _ => named placed
    _ = (program.visits.filterMap Visit.entered?).filterMap Subject.node? := by
        rw [List.filterMap_filterMap, ← program.map_placedVisits, List.filterMap_map]
        rfl
    _ = program.nodes := by
        rw [entered, subjects, List.filterMap_cons, List.filterMap_map]
        exact List.filterMap_some

end Program

namespace Session

/-- Entering a function reads the annotations in its header, if a class is around. -/
theorem failure?_enterFunction {session : Session} {around : List Node}
    (settled : ScopedBy around session) (function : Function) :
    failure? (session.enterFunction function) =
      (if around.any Node.isClass then function.annotations else []).findSome?
        fun text => failure? (TypeTag.read text) := by
  have inClass := settled.inClass
  unfold enterFunction
  cases enclosing : session.scopes.enclosingClass? with
  | none =>
    rw [enclosing] at inClass
    rw [← inClass]
    rfl
  | some frame =>
    have header := function.failure?_header session.layout session.modifiers frame.name
    rw [enclosing] at inClass
    rw [← inClass]
    exact (failure?_bind_pure _ _).trans header

/-- Entering an assignment reads its annotation, wherever it stands. -/
theorem failure?_enterAssignment (session : Session) (hasChain : Bool)
    (assignment : Assignment) :
    failure? (session.enterAssignment hasChain assignment) =
      assignment.type.toList.findSome? fun text => failure? (TypeTag.read text) := by
  rw [← TypeTag.failure?_readOptional, enterAssignment, failure?_bind]
  cases TypeTag.readOptional assignment.type with
  | error unknown => rfl
  | ok tag => cases session.scopes <;> rfl

/-- Entering a node reads its annotations. -/
theorem failure?_enterNode {session : Session} {around : List Node}
    (settled : ScopedBy around session) (node : Node) :
    failure? (session.enterNode node) =
      (node.annotations around).findSome? fun text => failure? (TypeTag.read text) := by
  unfold enterNode Node.annotations
  cases node.content with
  | function function => exact failure?_enterFunction settled function
  | assignment assignment => exact session.failure?_enterAssignment _ assignment
  | package | importBlock | importPath | classBody | accessBlock | staticBlock | print
  | returnStatement | ifBranch | elseIfBranch | elseBranch | call | chain => rfl

/-- A visit has a plan unless it enters a node with an unknown annotation. -/
theorem failure?_plan {session : Session} {placed : PlacedVisit}
    (settled : ScopedBy placed.around session) :
    failure? (session.plan placed.visit) =
      placed.entered?.bind fun (ancestors, node) =>
        (node.annotations ancestors).findSome? fun text => failure? (TypeTag.read text) := by
  obtain ⟨ancestors, ⟨⟨program⟩ | ⟨node⟩⟩ | ⟨⟨program⟩ | ⟨node⟩⟩⟩ := placed
  · rfl
  · exact failure?_enterNode settled node
  · rfl
  · rfl

end Session

namespace Program

/-- Where the sink has no limit, a transcription fails as the first of the annotations does
which it reads. -/
theorem failure?_transcribe (program : Program) (options : Options) (written : String) :
    failure? (program.transcribe options { text := written }).result =
      (program.annotations.findSome? fun text => failure? (TypeTag.read text)).map
        TranscriptError.unknownType := by
  let start := Session.start options { text := written }
  have lexical := Session.lexical_scopedBy.and_kept (fun session => session.setting = start.setting)
    fun visit state given => by rw [Session.call_listener, state.visit_setting visit, given]
  have settled : Session.ScopedBy [] start ∧ start.setting = start.setting := ⟨rfl, rfl⟩
  have along := lexical.along program settled
  have failed := along.failure? fun placed session ⟨settled, given⟩ => by
    have unlimited : session.emitter.sink.limit = none := congrArg Prod.snd given
    rw [Session.call_listener, Session.failure?_visit unlimited, Session.failure?_plan settled]
  rw [program.map_placedVisits] at failed
  rw [program.transcribe_result, failed, annotations, findSome?_flatMap, placedNodes,
    findSome?_filterMap, List.map_findSome?]
  rfl

end Program

/-- Where the sink has no limit, a transcription ends as the annotations say which it reads,
those of the nodes in preorder: it succeeds if all of them name types, and otherwise reports
the first that does not, without the white space around it. -/
theorem Program.result_by_annotations (program : Program) (options : Options) (written : String) :
    program.placedNodes.map Prod.snd = program.nodes ∧
    (program.transcribe options { text := written }).result =
      match program.annotations.find? fun text => !TypeTag.isSpelled text with
      | none => .ok ()
      | some text => .error (.unknownType ⟨String.ofList (Text.trim text.toList)⟩) := by
  refine ⟨program.map_placedNodes, eq_of_failure?_eq ?_⟩
  rw [program.failure?_transcribe, TypeTag.findSome?_read]
  cases program.annotations.find? fun text => !TypeTag.isSpelled text <;> rfl

end Treescribe
