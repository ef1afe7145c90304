import Treescribe.Notice
import Treescribe.Tree.Basic

/-!
# From table to tree

The rows of a message become the tree under the one row that has no parent, or
the first rule that they break is reported. The order of the rules is: ids row by
row, parents row by row, the root, and then the contents of the nodes in the
order of the tree. Rows that hang under no program are not looked at.
-/

namespace Treescribe

/-- The fields whose absence makes a row useless. -/
inductive Field where
  | ids
  | type
  | text
  | segments
deriving DecidableEq, Repr

/-- The name of a field in a message. -/
def Field.name : Field → String
  | .ids => "ids"
  | .type => "type"
  | .text => "text"
  | .segments => "segments"

/-- The rules a table can break. -/
inductive TableError where
  | unknownKind (id : UInt64) (kind : String)
  | missingField (id : UInt64) (kind : Kind) (field : Field)
  | duplicateId (id : UInt64)
  | reservedId
  | danglingParent (id parent : UInt64)
  | missingRoot
  | multipleRoots (count : Nat)
  | unexpectedRoot (id : UInt64) (kind : String)
  | misplacedProgram (id : UInt64)
deriving DecidableEq, Repr

/-- What is reported about a broken rule. -/
def TableError.message : TableError → String
  | .unknownKind id kind => "Node " ++ toString id ++ " has unknown kind '" ++ kind ++ "'"
  | .missingField id kind field =>
    "Node " ++ toString id ++ " (" ++ kind.spelling ++ ") is missing required field '" ++
      field.name ++ "'"
  | .duplicateId id => "Node id " ++ toString id ++ " is used more than once"
  | .reservedId => "Node id 0 is reserved for the root's parent"
  | .danglingParent id parent =>
    "Node " ++ toString id ++ " refers to missing parent " ++ toString parent
  | .missingRoot => "Parse tree message has no root node"
  | .multipleRoots count => "Parse tree message has " ++ toString count ++ " root nodes"
  | .unexpectedRoot id kind =>
    "Root node " ++ toString id ++ " must be a program, found '" ++ kind ++ "'"
  | .misplacedProgram id => "Program node " ++ toString id ++ " is not the root"

namespace Row

/-- The report that a field of a row is missing. -/
def missing (row : Row) (kind : Kind) (field : Field) : TableError :=
  .missingField row.id kind field

/-- The names of a row that has to have some. -/
def path (row : Row) (kind : Kind) : Except TableError (List String) :=
  if row.names.isEmpty then .error (row.missing kind .ids) else .ok row.names

/-- The first name of a row that has to have one. -/
def name (row : Row) (kind : Kind) : Except TableError String :=
  match row.names with
  | name :: _ => .ok name
  | [] => .error (row.missing kind .ids)

/-- The text of a row that has to have one. -/
def condition (row : Row) (kind : Kind) : Except TableError String :=
  match row.text with
  | some text => .ok text
  | none => .error (row.missing kind .text)

/-- A function without a return type. -/
def function (row : Row) (kind : Kind) (isOverride : Bool) : Except TableError Content := do
  let name ← row.name kind
  return .function ⟨name, row.parameters, isOverride, none⟩

/-- A function with a return type, which is asked for before its name. -/
def setter (row : Row) (kind : Kind) (isOverride : Bool) : Except TableError Content :=
  match row.type with
  | none => .error (row.missing kind .type)
  | some type => do
    let name ← row.name kind
    return .function ⟨name, row.parameters, isOverride, some type⟩

/-- The content that a row of a known kind gives its node. -/
def contentOf (row : Row) : Kind → Except TableError Content
  | .program => .error (.misplacedProgram row.id)
  | .package => return .package (← row.path .package)
  | .importBlock => return .importBlock
  | .importPath => return .importPath (← row.path .importPath)
  | .normalClass => return .classBody (← row.name .normalClass)
  | .normalFunction => row.function .normalFunction false
  | .overrideFunction => row.function .overrideFunction true
  | .functionSetter => row.setter .functionSetter false
  | .overrideFunctionSetter => row.setter .overrideFunctionSetter true
  | .privateBlock => return .accessBlock .privateAccess
  | .publicBlock => return .accessBlock .publicAccess
  | .staticBlock => return .staticBlock
  | .assignment => return .assignment ⟨← row.name .assignment, row.type, row.value⟩
  | .print => return .print row.values row.newline
  | .returnStatement => return .returnStatement row.value
  | .ifBranch => return .ifBranch (← row.condition .ifBranch)
  | .elseIfBranch => return .elseIfBranch (← row.condition .elseIfBranch)
  | .elseBranch => return .elseBranch
  | .callFunction => return .call (← row.name .callFunction) row.values
  | .classAccess =>
    if row.segments.isEmpty then .error (row.missing .classAccess .segments)
    else return .chain row.segments

/-- The content of the node of a row. -/
def content (row : Row) : Except TableError Content :=
  match Kind.ofSpelling? row.kind with
  | some kind => row.contentOf kind
  | none => .error (.unknownKind row.id row.kind)

end Row

namespace Table

/-- No row has the reserved id or an id seen before. -/
def checkIds (seen : List UInt64) : List Row → Except TableError Unit
  | [] => .ok ()
  | row :: rest =>
    if row.id = 0 then .error .reservedId
    else if row.id ∈ seen then .error (.duplicateId row.id)
    else checkIds (row.id :: seen) rest

/-- Whether a row names a parent that is not there. -/
def isDangling (rows : List Row) (row : Row) : Bool :=
  row.parent != 0 && !rows.any (·.id == row.parent)

/-- Every parent named is there. -/
def checkParents (rows : List Row) : Except TableError Unit :=
  match rows.find? (isDangling rows) with
  | some row => .error (.danglingParent row.id row.parent)
  | none => .ok ()

/-- The rows with a parent, in table order. -/
def childRows (rows : List Row) (parent : UInt64) : List Row :=
  rows.filter (·.parent == parent)

/-- The one row without a parent, which has to be a program. -/
def root (rows : List Row) : Except TableError Row :=
  match childRows rows 0 with
  | [] => .error .missingRoot
  | [row] =>
    if row.kind == Kind.program.spelling then .ok row
    else .error (.unexpectedRoot row.id row.kind)
  | roots => .error (.multipleRoots roots.length)

/-- The subtree of a row, up to a height. No branch of a tree is longer than its
table, so the length of the table is height enough. -/
def subtree (rows : List Row) : (height : Nat) → Row → Except TableError Node
  | 0, row => do
    let content ← row.content
    return ⟨row.id, content, []⟩
  | height + 1, row => do
    let content ← row.content
    let children ← (childRows rows row.id).mapM (subtree rows height)
    return ⟨row.id, content, children⟩

/-- The program of a table. -/
def program (rows : List Row) : Except TableError Program := do
  checkIds [] rows
  checkParents rows
  let root ← root rows
  let children ← (childRows rows root.id).mapM (subtree rows rows.length)
  return ⟨root.id, children⟩

/-- What is reported about a table that has become a program. -/
def notices (rows : List Row) (program : Program) : List Notice :=
  (if program.size < rows.length then [.unreachable (rows.length - program.size)] else []) ++
    [.parsed program.id program.size]

end Table

end Treescribe
