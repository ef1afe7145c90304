import Treescribe.Message.Basic
import Treescribe.Modifiers

/-!
# Program trees

A program is a tree of nodes. Each node has the content that its kind allows,
and its children in order.
-/

namespace Treescribe

/-- The kinds of nodes. -/
inductive Kind where
  | program
  | package
  | importBlock
  | importPath
  | normalClass
  | normalFunction
  | overrideFunction
  | functionSetter
  | overrideFunctionSetter
  | privateBlock
  | publicBlock
  | staticBlock
  | assignment
  | print
  | returnStatement
  | ifBranch
  | elseIfBranch
  | elseBranch
  | callFunction
  | classAccess
deriving DecidableEq, Repr

namespace Kind

/-- The name of a kind in a message. -/
def spelling : Kind → String
  | .program => "program"
  | .package => "package"
  | .importBlock => "importBlock"
  | .importPath => "import"
  | .normalClass => "normalClass"
  | .normalFunction => "normalFunction"
  | .overrideFunction => "overrideFunction"
  | .functionSetter => "functionSetter"
  | .overrideFunctionSetter => "overrideFunctionSetter"
  | .privateBlock => "privateBlock"
  | .publicBlock => "publicBlock"
  | .staticBlock => "staticBlock"
  | .assignment => "assignment"
  | .print => "print"
  | .returnStatement => "return"
  | .ifBranch => "if"
  | .elseIfBranch => "elseIf"
  | .elseBranch => "else"
  | .callFunction => "callFunction"
  | .classAccess => "classAccess"

/-- Every kind. -/
def all : List Kind :=
  [.program, .package, .importBlock, .importPath, .normalClass, .normalFunction,
    .overrideFunction, .functionSetter, .overrideFunctionSetter, .privateBlock, .publicBlock,
    .staticBlock, .assignment, .print, .returnStatement, .ifBranch, .elseIfBranch, .elseBranch,
    .callFunction, .classAccess]

/-- The kind of a name in a message. -/
def ofSpelling? (name : String) : Option Kind :=
  all.find? (·.spelling == name)

end Kind

/-- A function. A setter states the type it returns. -/
structure Function where
  name : String
  parameters : List Parameter
  isOverride : Bool
  returnType : Option String
deriving DecidableEq, Repr

/-- An assignment to a name or a member. Its value may stand in a chain below
it instead. -/
structure Assignment where
  target : String
  type : Option String
  value : Option String
deriving DecidableEq, Repr

/-- What a node says. -/
inductive Content where
  | package (path : List String)
  | importBlock
  | importPath (path : List String)
  | classBody (name : String)
  | function (function : Function)
  | accessBlock (access : Access)
  | staticBlock
  | assignment (assignment : Assignment)
  | print (values : List String) (newline : Bool)
  | returnStatement (value : Option String)
  | ifBranch (text : String)
  | elseIfBranch (text : String)
  | elseBranch
  | call (name : String) (arguments : List String)
  | chain (segments : List Segment)
deriving DecidableEq, Repr

/-- The kind of a function. -/
def Function.kind (function : Function) : Kind :=
  match function.isOverride, function.returnType with
  | false, none => .normalFunction
  | true, none => .overrideFunction
  | false, some _ => .functionSetter
  | true, some _ => .overrideFunctionSetter

/-- The kind of a node with some content. -/
def Content.kind : Content → Kind
  | .package _ => .package
  | .importBlock => .importBlock
  | .importPath _ => .importPath
  | .classBody _ => .normalClass
  | .function declared => declared.kind
  | .accessBlock .privateAccess => .privateBlock
  | .accessBlock .publicAccess => .publicBlock
  | .staticBlock => .staticBlock
  | .assignment _ => .assignment
  | .print _ _ => .print
  | .returnStatement _ => .returnStatement
  | .ifBranch _ => .ifBranch
  | .elseIfBranch _ => .elseIfBranch
  | .elseBranch => .elseBranch
  | .call _ _ => .callFunction
  | .chain _ => .classAccess

/-- A node below the program. -/
structure Node where
  id : UInt64
  content : Content
  children : List Node
deriving Repr

/-- A whole tree: the program node and the nodes directly below it. -/
structure Program where
  id : UInt64
  children : List Node
deriving Repr

namespace Node

/-- The kind of a node. -/
def kind (node : Node) : Kind :=
  node.content.kind

/-- Whether one of the children is a chain. -/
def hasChain (node : Node) : Bool :=
  node.children.any (·.kind == .classAccess)

mutual

/-- The number of nodes of a subtree. -/
def size : Node → Nat
  | ⟨_, _, children⟩ => 1 + sizeAll children

/-- The number of nodes of several subtrees. -/
def sizeAll : List Node → Nat
  | [] => 0
  | node :: rest => size node + sizeAll rest

end

end Node

/-- The number of nodes of a program, itself included. -/
def Program.size (program : Program) : Nat :=
  1 + Node.sizeAll program.children

end Treescribe
