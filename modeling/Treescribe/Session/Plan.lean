import Treescribe.Chain.Code
import Treescribe.Session.Basic
import Treescribe.Session.Condition
import Treescribe.Session.Header
import Treescribe.Tree.Visit

/-!
# What a visit does

Every visit of a walk has a plan: the actions it takes, decided from the session
before any of them is carried out. A plan exists unless a type tag is unknown, so
an unknown tag changes nothing.
-/

namespace Treescribe

namespace Action

/-- Writes a line that ends a statement. -/
def statement (text : String) : Action :=
  .emit (.write text 1 true)

/-- Writes the start of a line that a later text completes. -/
def opening (text : String) : Action :=
  .emit (.write text 0 false)

/-- Opens a block under a header. -/
def openBlock (header : String) : List Action :=
  [.emit (.write (header ++ " \x7b") 1 false), .emit .indent]

/-- Closes a block. -/
def closeBlock : List Action :=
  [.emit .dedent, .emit (.write "\x7d" 1 false)]

end Action

namespace Session

/-- The layout of the text. -/
def layout (session : Session) : Layout :=
  session.emitter.layout

/-- The directives every complete file starts with. -/
def preambleActions : List Action :=
  [.statement "using System", .emit (.write "using System.Collections.Generic" 2 true)]

/-- Only the first package opens a namespace. -/
def enterPackage (session : Session) (path : List String) : List Action :=
  if session.inPackage then [.note (.secondPackage path)]
  else Action.openBlock ("namespace " ++ ".".intercalate path) ++ [.openPackage]

/-- A class is known from its header on. -/
def enterClass (name : String) : List Action :=
  Action.openBlock ("class " ++ name) ++
    [.register name, .note (.registeredClass name),
      .enterScope { kind := .classBody, name, emitted := true }]

/-- The body of a function, in which its parameters are declared. -/
def functionFrame (function : Function) (emitted : Bool) : Frame :=
  { kind := .functionBody, name := function.name,
    declared := function.parameters.map (·.name), emitted }

/-- A function outside any class has no header, but a body of its own. -/
def enterFunction (session : Session) (function : Function) :
    Except UnknownType (List Action) :=
  match session.scopes.enclosingClass? with
  | none =>
    .ok [.note (.functionOutsideClass function.name), .enterScope (functionFrame function false)]
  | some enclosing => do
    let header ← function.header session.layout session.modifiers enclosing.name
    return Action.openBlock header ++ [.enterScope (functionFrame function true)]

/-- The body of a function is closed if its header was written. -/
def exitFunction (session : Session) : List Action :=
  match session.scopes with
  | frame :: _ => .leaveScope :: if frame.emitted then Action.closeBlock else []
  | [] => []

/-- What a target starts with that is a member of the object itself. -/
def memberMark : String := "this@"

/-- Whether a target is a member of the object itself. -/
def isMemberReference (target : String) : Bool :=
  memberMark.toList.isPrefixOf target.toList

/-- The text of the target of an assignment. -/
def targetCode (target : String) : String :=
  String.ofList (Text.dotLinks (Text.dropLeading memberMark.toList target.toList))

/-- How an assignment in a body would be declared. -/
def declaration (session : Session) (frame : Frame) (hasChain : Bool)
    (assignment : Assignment) (tag : Option TypeTag) : Declaration :=
  { tag
    shape := Shape.classify session.classes hasChain assignment.value
    isField := frame.kind == .classBody
    isMemberReference := isMemberReference assignment.target }

/-- What a declaration is written with before its target: modifiers if it is a
field, and its type. -/
def declarationTokens (session : Session) (declaration : Declaration) : List String :=
  (if declaration.isField then session.modifiers.keywords none else []) ++
    (declaration.type?.map TargetType.code).toList

/-- The first assignment of a name in a body declares it; a member of the object
is never declared. The value follows on the same line unless a chain writes it. -/
def assign (session : Session) (frame : Frame) (hasChain : Bool) (assignment : Assignment)
    (tag : Option TypeTag) : List Action :=
  let declaration := session.declaration frame hasChain assignment tag
  let isNew := !frame.isDeclared assignment.target
  let tokens :=
    (if isNew then session.declarationTokens declaration else []) ++
      [targetCode assignment.target]
  let reports := if isNew then declaration.notices.map Action.note else []
  let declares :=
    if isNew && !declaration.isMemberReference then [Action.declare assignment.target] else []
  let line :=
    if hasChain then Action.opening (" ".intercalate tokens ++ " = ")
    else
      let value := assignment.value.map
        (Value.render session.layout declaration.shape (tag == some .float))
      Action.statement
        (" ".intercalate (tokens ++ value.elim [] fun value => ["=", value]))
  reports ++ declares ++ [line]

/-- An assignment outside all bodies is left out. -/
def enterAssignment (session : Session) (hasChain : Bool) (assignment : Assignment) :
    Except UnknownType (List Action) := do
  let tag ← TypeTag.readOptional assignment.type
  match session.scopes with
  | [] => return [.note (.assignmentOutsideScope assignment.target)]
  | frame :: _ => return session.assign frame hasChain assignment tag

/-- Each value is written by a call of its own, and a line break by one more. -/
def enterPrint (session : Session) (values : List String) (newline : Bool) : List Action :=
  let written := values.map (Value.code session.layout) ++ if newline then ["\"\\n\""] else []
  if written.isEmpty then []
  else [.statement ("; ".intercalate (written.map fun value => "Console.Write(" ++ value ++ ")"))]

/-- A return without a value may have it in a chain. -/
def enterReturn (session : Session) (hasChain : Bool) (value : Option String) : List Action :=
  if hasChain then [.opening "return "]
  else
    match value with
    | some value => [.statement ("return " ++ Value.code session.layout value)]
    | none => [.statement "return"]

/-- A chain is a statement, or completes the line of the node above it. -/
def enterChain (session : Session) (segments : List Segment) : List Action :=
  (Chain.notices session.classes session.scopes.head? segments).map .note ++
    [.statement (Chain.code session.layout session.classes session.scopes.head? segments)]

/-- What is done on the way into a node. -/
def enterNode (session : Session) (node : Node) : Except UnknownType (List Action) :=
  match node.content with
  | .package path => .ok (session.enterPackage path)
  | .importBlock => .ok []
  | .importPath path => .ok [.statement ("using " ++ ".".intercalate path)]
  | .classBody name => .ok (enterClass name)
  | .function function => session.enterFunction function
  | .accessBlock access => .ok [.setAccess (some access)]
  | .staticBlock => .ok [.setStatic true]
  | .assignment assignment => session.enterAssignment node.hasChain assignment
  | .print values newline => .ok (session.enterPrint values newline)
  | .returnStatement value => .ok (session.enterReturn node.hasChain value)
  | .ifBranch text =>
    .ok (Action.openBlock ("if (" ++ Condition.code Condition.ifKeywords text ++ ")"))
  | .elseIfBranch text =>
    .ok (Action.openBlock ("else if (" ++ Condition.code Condition.elseIfKeywords text ++ ")"))
  | .elseBranch => .ok (Action.openBlock "else")
  | .call name arguments =>
    .ok [.statement (name ++ "(" ++ Value.codes session.layout arguments ++ ")")]
  | .chain segments => .ok (session.enterChain segments)

/-- What is done on the way out of a node. -/
def exitNode (session : Session) (node : Node) : List Action :=
  match node.content with
  | .classBody _ => Action.closeBlock ++ [.leaveScope]
  | .function _ => session.exitFunction
  | .accessBlock _ => [.setAccess none]
  | .staticBlock => [.setStatic false]
  | .ifBranch _ => Action.closeBlock
  | .elseIfBranch _ => Action.closeBlock
  | .elseBranch => Action.closeBlock
  | _ => []

/-- The actions of a visit. -/
def plan (session : Session) : Visit → Except UnknownType (List Action)
  | .enter (.root _) => .ok (if session.preamble then preambleActions else [])
  | .exit (.root _) => .ok (if session.inPackage then Action.closeBlock else [])
  | .enter (.inner node) => session.enterNode node
  | .exit (.inner node) => .ok (session.exitNode node)

/-- Plans a visit and carries the plan out. -/
def visit (session : Session) (visit : Visit) : Except TranscriptError Unit × Session :=
  match session.plan visit with
  | .error error => (.error (.unknownType error), session)
  | .ok actions => session.run actions

end Session

end Treescribe
