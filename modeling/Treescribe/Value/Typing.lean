import Treescribe.Notice
import Treescribe.Value.Shape

/-!
# Types in declarations

The target types, and the type that the first assignment of a name is written
with.
-/

namespace Treescribe

/-- The types the target text can name. -/
inductive TargetType where
  | string
  | int
  | float
  | list
  | bool
  | void
  | null
  /-- A class of the program, or a construction with its type arguments. -/
  | named (name : String)
  /-- The type is left to the target's own inference. -/
  | inferred
deriving DecidableEq, Repr

/-- The target text of a type. -/
def TargetType.code : TargetType → String
  | .string => "string"
  | .int => "int"
  | .float => "float"
  | .list => "List<>"
  | .bool => "bool"
  | .void => "void"
  | .null => "null"
  | .named name => name
  | .inferred => "var"

/-- The target type of a type tag. -/
def TypeTag.target : TypeTag → TargetType
  | .string => .string
  | .integer => .int
  | .float => .float
  | .list => .list
  | .boolean => .bool
  | .void => .void
  | .nothing => .null

/-- The target type of a literal. -/
def LiteralKind.target : LiteralKind → TargetType
  | .string => .string
  | .int => .int
  | .float => .float
  | .list => .list
  | .bool => .bool
  | .nothing => .null

/-- What decides the type of a declaration. -/
structure Declaration where
  /-- The type stated, if one is. -/
  tag : Option TypeTag
  shape : Shape
  /-- The name is declared in a class body. -/
  isField : Bool
  /-- The name is a member reached through the object itself. -/
  isMemberReference : Bool
deriving DecidableEq, Repr

namespace Declaration

/-- The type a declaration is written with, if any. A stated type always wins;
fields take the type of their value, locals leave it to inference. -/
def type? (declaration : Declaration) : Option TargetType :=
  match declaration.tag with
  | some tag => some tag.target
  | none =>
    if declaration.isMemberReference then none
    else
      match declaration.isField, declaration.shape with
      | _, .absent => none
      | true, .literal kind => some kind.target
      | true, .construction name => some (.named name)
      | _, _ => some .inferred

/-- A field whose value has no evident type is reported. -/
def notices (declaration : Declaration) : List Notice :=
  match declaration with
  | ⟨none, .chain, true, false⟩ => [.untypedField]
  | ⟨none, .expression, true, false⟩ => [.untypedField]
  | _ => []

end Declaration

end Treescribe
