import Treescribe.Text.Blank

/-!
# Type tags

The types that a source program may state. A tag is read without the white space
around it.
-/

namespace Treescribe

/-- The types of the source language. -/
inductive TypeTag where
  | string
  | integer
  | float
  | list
  | boolean
  | void
  | nothing
deriving DecidableEq, Repr

/-- A text that names no type, without the white space around it. -/
structure UnknownType where
  tag : String
deriving DecidableEq, Repr

/-- What is reported about an unknown type. -/
def UnknownType.message (error : UnknownType) : String :=
  "Unknown type annotation '" ++ error.tag ++ "'"

namespace TypeTag

/-- How a type is written. -/
def spelling : TypeTag → String
  | .string => "String"
  | .integer => "Integer"
  | .float => "Float"
  | .list => "List"
  | .boolean => "Boolean"
  | .void => "Void"
  | .nothing => "None"

/-- Every type. -/
def all : List TypeTag :=
  [.string, .integer, .float, .list, .boolean, .void, .nothing]

/-- The type that a text names, white space around it aside. -/
def read (text : String) : Except UnknownType TypeTag :=
  let trimmed := String.ofList (Text.trim text.toList)
  match all.find? (·.spelling == trimmed) with
  | some tag => .ok tag
  | none => .error ⟨trimmed⟩

/-- The type named by a text that may be missing. -/
def readOptional : Option String → Except UnknownType (Option TypeTag)
  | none => .ok none
  | some text => (read text).map some

/-- Whether a text names a type. -/
def isTag (text : String) : Bool :=
  match read text with
  | .ok _ => true
  | .error _ => false

end TypeTag

end Treescribe
