import Treescribe.Proofs.Session.Situations

/-!
# Scopes and ancestors

The scopes of a session are the bodies of the classes and functions around the current
place, whatever other nodes stand between them. What the transcription decides by its
scopes it therefore decides by the ancestors of a node: the class a function belongs to,
whether an assignment is a field, whether a function is a constructor.
-/

namespace Treescribe

/-- A body without the names declared in it. -/
def Frame.bare (frame : Frame) : Frame :=
  { frame with declared := [] }

namespace Node

/-- The name of a class. -/
def className? (node : Node) : Option String :=
  match node.content with
  | .classBody name => some name
  | _ => none

/-- Whether a node is a class. -/
def isClass (node : Node) : Bool :=
  node.className?.isSome

/-- Whether a node is a class or a function, which have bodies. -/
def hasBody (node : Node) : Bool :=
  match node.content with
  | .classBody _ | .function _ => true
  | _ => false

/-- The body that a class or a function opens under some ancestors. The header of a
function is written exactly if one of them is a class. -/
def body? (node : Node) (ancestors : List Node) : Option Frame :=
  match node.content with
  | .classBody name => some { kind := .classBody, name, emitted := true }
  | .function function =>
    some { kind := .functionBody, name := function.name, emitted := ancestors.any isClass }
  | _ => none

/-- The bodies of the classes and functions among some nodes, each of which is above the
ones before it. -/
def bodies : List Node → Scopes
  | [] => []
  | node :: ancestors => (node.body? ancestors).toList ++ bodies ancestors

/-- The innermost class body belongs to the nearest class. -/
theorem enclosingClass?_bodies (nodes : List Node) :
    (bodies nodes).enclosingClass?.map (·.name) = nodes.findSome? className? := by
  induction nodes with
  | nil => rfl
  | cons node ancestors inductionHypothesis =>
    unfold Scopes.enclosingClass? at inductionHypothesis ⊢
    rw [bodies, body?, List.findSome?_cons, className?]
    cases node.content <;> simp [inductionHypothesis]

/-- The innermost body belongs to the nearest class or function. -/
theorem head?_bodies (nodes : List Node) :
    (bodies nodes).head?.map (·.kind == .classBody) = (nodes.find? hasBody).map isClass := by
  induction nodes with
  | nil => rfl
  | cons node ancestors inductionHypothesis =>
    rw [bodies, body?, List.find?_cons, hasBody]
    cases content : node.content <;>
      simp [inductionHypothesis, isClass, className?, content]

end Node

namespace Function

/-- The line that opens a function, of its keywords and the texts of its parameters. -/
def headerText (function : Function) (keywords parameters : List String) : String :=
  let unfilled :=
    " ".intercalate keywords ++ " " ++ function.name ++ "(" ++ parametersMark ++ ")"
  String.ofList
    (Text.fill parametersMark.toList (", ".intercalate parameters).toList unfilled.toList)

/-- A plain function is `void` unless it is named like its class. -/
theorem header_of_normal {function : Function} (plain : function.kind = .normalFunction)
    (layout : Layout) (modifiers : Modifiers) (className : String) :
    function.header layout modifiers className =
      (function.parameters.mapM (Parameter.code layout)).map
        (function.headerText
          (modifiers.keywords (some .publicAccess) ++
            if function.name = className then [] else ["void"])) := by
  obtain ⟨name, parameters, isOverride, returnType⟩ := function
  cases isOverride <;> cases returnType <;> cases plain
  unfold header
  cases parameters.mapM (Parameter.code layout) <;> rfl

end Function

namespace Session

/-- The bodies around the current place, without the names declared in them. -/
def bodies (session : Session) : Scopes :=
  session.scopes.map Frame.bare

/-- Declaring a name changes no body but in its names. -/
theorem map_bare_declare (scopes : Scopes) (name : String) :
    (scopes.declare name).map Frame.bare = scopes.map Frame.bare := by
  cases scopes with
  | nil => rfl
  | cons frame outer =>
    have same : (frame.declare name).bare = frame.bare := by
      unfold Frame.declare
      split <;> rfl
    simp [Scopes.declare, same]

/-- Entering a node opens its body, if it has one. -/
theorem bare_enter {situation : Situation} {ancestors : List Node}
    (inClass : situation.scopes.enclosingClass?.isSome = ancestors.any Node.isClass) (node : Node) :
    (situation.enter node).scopes.map Frame.bare =
      (node.body? ancestors).toList ++ situation.scopes.map Frame.bare := by
  unfold Situation.enter Node.body?
  cases node.content with
  | function function =>
    rw [← inClass]
    rfl
  | assignment assignment =>
    dsimp only
    split
    · rfl
    · exact map_bare_declare situation.scopes assignment.target
  | package | importBlock | importPath | classBody | accessBlock | staticBlock | print
  | returnStatement | ifBranch | elseIfBranch | elseBranch | call | chain => rfl

/-- Leaving a node leaves its body, if it has one. -/
theorem bare_exit {situation : Situation} {node : Node} {ancestors : List Node}
    (inside : situation.scopes.map Frame.bare = Node.bodies (node :: ancestors)) :
    (situation.exit node).scopes.map Frame.bare = Node.bodies ancestors := by
  rw [Node.bodies] at inside
  unfold Situation.exit
  unfold Node.body? at inside
  revert inside
  cases node.content with
  | classBody | function =>
    intro inside
    have left := congrArg List.tail inside
    rwa [← List.map_tail] at left
  | package | importBlock | importPath | accessBlock | staticBlock | assignment | print
  | returnStatement | ifBranch | elseIfBranch | elseBranch | call | chain => exact id

/-- A visit that succeeds moves the bodies as it does the situation. -/
theorem bodies_of_visit {session next : Session} {visit : Visit}
    (visited : listener.call visit session = (.ok (), next)) :
    next.bodies = (session.situation.after visit).scopes.map Frame.bare := by
  rw [call_listener] at visited
  rw [← situation_of_visit visited]
  rfl

/-- The scopes of a session are those of the nodes around a place, names aside. -/
def ScopedBy (around : List Node) (session : Session) : Prop :=
  session.bodies = Node.bodies around

/-- The enclosing class of a session is the nearest class around. -/
theorem ScopedBy.enclosingClass? {around : List Node} {session : Session}
    (settled : ScopedBy around session) :
    session.scopes.enclosingClass?.map (·.name) = around.findSome? Node.className? := by
  rw [← Node.enclosingClass?_bodies, ← settled]
  simp [Session.bodies, Scopes.enclosingClass?, List.find?_map, Function.comp_def, Frame.bare]

/-- The innermost body of a session belongs to the nearest class or function around. -/
theorem ScopedBy.head? {around : List Node} {session : Session}
    (settled : ScopedBy around session) :
    session.scopes.head?.map (·.kind == .classBody) =
      (around.find? Node.hasBody).map Node.isClass := by
  rw [← Node.head?_bodies, ← settled]
  simp [Session.bodies, Function.comp_def, Frame.bare]

/-- A session is in a class if a class is around. -/
theorem ScopedBy.inClass {around : List Node} {session : Session}
    (settled : ScopedBy around session) :
    session.scopes.enclosingClass?.isSome = around.any Node.isClass := by
  rw [← Option.isSome_map, settled.enclosingClass?, List.isSome_findSome?]
  rfl

/-- The scopes of a session follow the tree. -/
theorem lexical_scopedBy : Lexical listener ScopedBy where
  enterRoot {program session next} before entered := (bodies_of_visit entered).trans before
  enter {above node session next} before entered := by
    have inClass : session.situation.scopes.enclosingClass?.isSome = above.any Node.isClass :=
      before.inClass
    have moved := (bodies_of_visit entered).trans (bare_enter inClass node)
    rw [ScopedBy, moved]
    exact congrArg _ before
  exit {above node session next} before left := (bodies_of_visit left).trans (bare_exit before)

end Session

namespace Situation

/-- Leaving a node leads back to the bodies around it, names aside, if those inside are the ones
that were there when it was entered. -/
theorem bare_exit_enter {situation inner : Situation} {node : Node}
    (same : inner.scopes.map Frame.bare = (situation.enter node).scopes.map Frame.bare) :
    (inner.exit node).scopes.map Frame.bare = situation.scopes.map Frame.bare := by
  unfold enter at same
  unfold exit
  cases content : node.content with
  | classBody | function =>
    simp only [content] at same ⊢
    rw [List.map_tail, same]
    rfl
  | assignment assignment =>
    simp only [content] at same ⊢
    split at same
    · exact same
    · exact same.trans (Session.map_bare_declare _ _)
  | package | importBlock | importPath | accessBlock | staticBlock | print | returnStatement
  | ifBranch | elseIfBranch | elseBranch | call | chain =>
    simpa only [content] using same

/-- Subtrees beside each other lead back to the bodies around them if each of them does. -/
theorem bare_flatMap {nodes : List Node}
    (each : ∀ node ∈ nodes, ∀ situation : Situation,
      (node.visits.foldl after situation).scopes.map Frame.bare =
        situation.scopes.map Frame.bare) (situation : Situation) :
    ((nodes.flatMap Node.visits).foldl after situation).scopes.map Frame.bare =
      situation.scopes.map Frame.bare := by
  induction nodes generalizing situation with
  | nil => rfl
  | cons node rest inductionHypothesis =>
    rw [List.flatMap_cons, List.foldl_append]
    exact (inductionHypothesis (fun other member => each other (by simp [member])) _).trans
      (each node (by simp) situation)

/-- A subtree leads back to the bodies around it, names aside, wherever it stands. -/
theorem bare_visits (node : Node) (situation : Situation) :
    (node.visits.foldl after situation).scopes.map Frame.bare =
      situation.scopes.map Frame.bare := by
  induction node using Node.byChildren generalizing situation with
  | step node inductionHypothesis =>
    rw [Node.visits_eq, List.foldl_append, List.foldl_cons]
    exact bare_exit_enter (bare_flatMap inductionHypothesis _)

end Situation

namespace Session

/-- What the scopes of a session say of a place when the hook of a visit is called there. -/
structure Oriented (placed : PlacedVisit) (session : Session) : Prop where
  /-- The bodies are those of the classes and functions around, innermost first. -/
  bodies : session.bodies = Node.bodies placed.around
  /-- The enclosing class is the nearest class. -/
  enclosingClass :
    session.scopes.enclosingClass?.map (·.name) = placed.around.findSome? Node.className?
  /-- An assignment above which there is neither class nor function is left out. -/
  outside {node : Node} {assignment : Assignment} {tag : Option TypeTag}
    (entered : placed.visit = .enter (.inner node))
    (content : node.content = .assignment assignment)
    (known : TypeTag.readOptional assignment.type = .ok tag)
    (bare : placed.ancestors.find? Node.hasBody = none) :
    session.plan placed.visit = .ok [.note (.assignmentOutsideScope assignment.target)]
  /-- Any other assignment is one of a field exactly if the nearest class or function is a
  class. -/
  field {node body : Node} {assignment : Assignment} {tag : Option TypeTag}
    (entered : placed.visit = .enter (.inner node))
    (content : node.content = .assignment assignment)
    (known : TypeTag.readOptional assignment.type = .ok tag)
    (nearest : placed.ancestors.find? Node.hasBody = some body) :
    ∃ frame, session.scopes.head? = some frame ∧
      session.plan placed.visit = .ok (session.assign frame node.hasChain assignment tag) ∧
      (session.declaration frame node.hasChain assignment tag).isField = body.isClass
  /-- A plain function in a class is `void` exactly if its name is not that of the nearest
  class. -/
  void {node : Node} {function : Function} {className : String}
    (entered : placed.visit = .enter (.inner node))
    (content : node.content = .function function) (plain : function.kind = .normalFunction)
    (nearest : placed.ancestors.findSome? Node.className? = some className) :
    session.plan placed.visit =
      (function.parameters.mapM (Parameter.code session.layout)).map fun parameters =>
        Action.openBlock
          (function.headerText
            (session.modifiers.keywords (some .publicAccess) ++
              if function.name = className then [] else ["void"])
            parameters) ++
          [.enterScope (functionFrame function true)]

/-- Scopes that follow the tree say what is around. -/
theorem ScopedBy.oriented {placed : PlacedVisit} {session : Session}
    (settled : ScopedBy placed.around session) : Oriented placed session := by
  obtain ⟨ancestors, visit⟩ := placed
  refine ⟨settled, settled.enclosingClass?, ?_, ?_, ?_⟩
  · rintro node assignment tag rfl content known bare
    have empty := settled.head?
    simp only [PlacedVisit.around, bare, Option.map_none, Option.map_eq_none_iff,
      List.head?_eq_none_iff] at empty
    simp only [plan, enterNode, content, enterAssignment, known, empty]
    rfl
  · rintro node body assignment tag rfl content known nearest
    have top := settled.head?
    simp only [PlacedVisit.around, nearest, Option.map_some, Option.map_eq_some_iff] at top
    obtain ⟨frame, first, kind⟩ := top
    refine ⟨frame, first, ?_, kind⟩
    obtain ⟨outer, scopes⟩ := List.head?_eq_some_iff.mp first
    simp only [plan, enterNode, content, enterAssignment, known, scopes]
    rfl
  · rintro node function className rfl content plain nearest
    have enclosing := settled.enclosingClass?
    simp only [PlacedVisit.around, nearest, Option.map_eq_some_iff] at enclosing
    obtain ⟨frame, found, rfl⟩ := enclosing
    simp only [plan, enterNode, content, enterFunction, found, Function.header_of_normal plain]
    cases function.parameters.mapM (Parameter.code session.layout) <;> rfl

end Session

/-- The scopes follow the ancestors: whenever the walk of a transcription calls a hook, up to
the first that fails, the scopes of the session are the bodies of the classes and functions
around the place, so what is decided by them is decided by the nearest ones. -/
theorem Program.scopes_follow_ancestors (program : Program) (options : Options) (sink : Sink) :
    ((program.transcribe options sink).result, (program.transcribe options sink).session) =
        Session.listener.walk program (Session.start options sink) ∧
      List.Forall₂
        (fun placed called => placed.visit = called.1 ∧ Session.Oriented placed called.2)
        (program.placedVisits.take
          (Session.listener.calls program (Session.start options sink)).length)
        (Session.listener.calls program (Session.start options sink)) := by
  refine ⟨program.transcribe_eq_walk options sink, ?_⟩
  have settled : Session.ScopedBy [] (Session.start options sink) := rfl
  have followed := Session.lexical_scopedBy.calls program settled
  exact followed.imp fun placed called ⟨visited, settled⟩ => ⟨visited, settled.oriented⟩

end Treescribe
