import Treescribe.Literal.Construction
import Treescribe.Value.Shape

/-!
# Target forms of values

The target text of single values, as strings: links, literals, lists of
arguments, and the right-hand sides of assignments.
-/

namespace Treescribe.Value

/-- The text with its links as dots. -/
def links (text : String) : String :=
  String.ofList (Text.dotLinks text.toList)

/-- The target form of a literal, link or expression. -/
def code (layout : Layout) (text : String) : String :=
  String.ofList (Literal.code layout text.toList)

/-- The target forms of several texts, separated by commas. -/
def codes (layout : Layout) (texts : List String) : String :=
  ", ".intercalate (texts.map (code layout))

/-- The letters that end a target number and fix its type. -/
def isTypeSuffix (c : Char) : Bool :=
  c == 'f' || c == 'F' || c == 'd' || c == 'D' || c == 'm' || c == 'M'

/-- A number marked as a float, unless a type suffix ends it already. -/
def withFloatSuffix (text : List Char) : List Char :=
  if text.getLast?.any isTypeSuffix then text else text ++ ['f']

/-- The target form of a trimmed value of a known shape. -/
def renderTrimmed (layout : Layout) (shape : Shape) (floatContext : Bool) (value : List Char) :
    List Char :=
  match shape with
  | .construction _ => Literal.construction layout value
  | .literal .float => withFloatSuffix value
  | .literal .int =>
    if floatContext && Literal.isDecimalInteger value then withFloatSuffix value
    else Literal.code layout value
  | _ => Literal.code layout value

/-- The right-hand side of an assignment. In a float context, where the target
is stated to be a float, decimal integers become floats. -/
def render (layout : Layout) (shape : Shape) (floatContext : Bool) (value : String) : String :=
  String.ofList (renderTrimmed layout shape floatContext (Text.trim value.toList))

end Treescribe.Value
