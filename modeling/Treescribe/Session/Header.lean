import Treescribe.Modifiers
import Treescribe.Tree.Basic
import Treescribe.Value.Rendering
import Treescribe.Value.Typing

/-!
# Function headers

The line that opens a function: its modifiers, its return type, its name and its
parameters.
-/

namespace Treescribe

/-- The text of a parameter: its type if it has one, its name, and its default
if it has one. -/
def Parameter.code (layout : Layout) (parameter : Parameter) : Except UnknownType String := do
  let type ← TypeTag.readOptional parameter.type
  return " ".intercalate
    ((type.map (·.target.code)).toList ++ [parameter.name] ++
      (parameter.default.map fun value => "= " ++ Value.code layout value).toList)

namespace Function

/-- The keywords between the access of a function and its name. A function named
like its class is a constructor, which has no return type. -/
def typeKeywords (function : Function) (className : String) :
    Except UnknownType (List String) :=
  match function.returnType with
  | none =>
    .ok (if function.isOverride then ["override"]
      else if function.name = className then [] else ["void"])
  | some tag => do
    let type ← TypeTag.read tag
    return (if function.isOverride then ["override"] else []) ++ [type.target.code]

/-- The place of the parameters in a header that is not filled in yet. -/
def parametersMark : String := "#PARAMETERS"

/-- The header of a function in a class. Its parameters are filled in last, so a
name that holds their mark receives them, too. -/
def header (function : Function) (layout : Layout) (modifiers : Modifiers) (className : String) :
    Except UnknownType String := do
  let typeKeywords ← function.typeKeywords className
  let parameters ← function.parameters.mapM (Parameter.code layout)
  let keywords := modifiers.keywords (some .publicAccess) ++ typeKeywords
  let unfilled :=
    " ".intercalate keywords ++ " " ++ function.name ++ "(" ++ parametersMark ++ ")"
  return String.ofList
    (Text.fill parametersMark.toList (", ".intercalate parameters).toList unfilled.toList)

end Function

end Treescribe
