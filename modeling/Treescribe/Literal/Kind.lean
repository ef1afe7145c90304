import Treescribe.Literal.Numeral
import Treescribe.Text.Blank
import Treescribe.Text.Cut

/-!
# Kinds of literals

The kind of value a source text denotes when it is a single literal.
-/

namespace Treescribe

/-- The kinds of values a literal can denote. -/
inductive LiteralKind where
  | string
  | int
  | float
  | list
  | bool
  | nothing
deriving DecidableEq, Repr

namespace Literal

/-- A text between two equal quotes, of whichever type. -/
def isString (text : List Char) : Bool :=
  Text.isDelimited ['"'] text || Text.isDelimited ['\''] text || Text.isDelimited ['\x60'] text

/-- The words that are literals. -/
def keywordKind? (text : List Char) : Option LiteralKind :=
  if text = "true".toList || text = "false".toList || text = "True".toList ||
      text = "False".toList then
    some .bool
  else if text = "None".toList || text = "null".toList then
    some .nothing
  else
    none

/-- The kind of a trimmed text, the earlier kinds winning. -/
def kindOfTrimmed? (text : List Char) : Option LiteralKind :=
  if isString text then some .string
  else
    match keywordKind? text with
    | some kind => some kind
    | none =>
      if text.head? = some '[' && text.getLast? = some ']' then some .list
      else if isInteger text then some .int
      else if isFloat text then some .float
      else none

/-- The kind of a literal with white space around it, if the text is one. -/
def kind? (text : List Char) : Option LiteralKind :=
  kindOfTrimmed? (Text.trim text)

end Literal

end Treescribe
