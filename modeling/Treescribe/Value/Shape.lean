import Treescribe.TypeTag
import Treescribe.Literal.Kind

/-!
# Shapes of values

What the right-hand side of an assignment looks like, as far as giving it a type
and a target form needs to know.
-/

namespace Treescribe

/-- The shape of a value. -/
inductive Shape where
  /-- There is no value. -/
  | absent
  | literal (kind : LiteralKind)
  /-- The value constructs an object of the named type. -/
  | construction (name : String)
  /-- The value is a chain, written by a child of the assignment. -/
  | chain
  | expression
deriving DecidableEq, Repr

namespace Shape

/-- The trimmed text before the first opening parenthesis or angle bracket. -/
def head (value : List Char) : List Char :=
  Text.trim (value.takeWhile fun c => c != '(' && c != '<')

/-- The shape of a trimmed text. A text that starts with the name of a known
class constructs it; one that starts with a type tag constructs it if it has a
parenthesis, type arguments being part of the name. -/
def ofTrimmed (classes : List String) (value : List Char) : Shape :=
  match Literal.kind? value with
  | some kind => .literal kind
  | none =>
    let head := String.ofList (head value)
    if head ∈ classes then .construction head
    else if TypeTag.isTag head && value.contains '(' then
      .construction (String.ofList (Text.trim (value.takeWhile (· != '('))))
    else .expression

/-- The shape of the value of a node. A chain among its children wins over the
value. -/
def classify (classes : List String) (hasChain : Bool) (value : Option String) : Shape :=
  if hasChain then .chain
  else
    match value with
    | none => .absent
    | some value => ofTrimmed classes (Text.trim value.toList)

end Shape

end Treescribe
