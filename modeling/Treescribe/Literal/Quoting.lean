import Treescribe.Layout
import Treescribe.Text.Blank
import Treescribe.Text.Cut
import Treescribe.Text.Scan

/-!
# Literals in target form

Single-quoted and backtick strings become double-quoted ones, strings between
triple backticks become verbatim strings, and the keywords change their
spelling. Any other text only has its links turned into dots.
-/

namespace Treescribe.Literal

/-- The delimiter of strings that may run over several lines. -/
def tripleBacktick : List Char := ['\x60', '\x60', '\x60']

/-- A double-quoted string whose backslashes and quotes are escaped. -/
def doubleQuoted (body : List Char) : List Char :=
  let escaped := Text.substitute '"' ['\\', '"'] (Text.substitute '\\' ['\\', '\\'] body)
  ['"'] ++ escaped ++ ['"']

/-- A verbatim string, its quotes doubled. Compact text has no line breaks, so
there the lines of the body are joined by the escape of a line feed. -/
def verbatim (layout : Layout) (body : List Char) : List Char :=
  let doubled := Text.substitute '"' ['"', '"'] body
  let written :=
    match layout with
    | .pretty => doubled
    | .compact => List.intercalate ['\\', 'n'] (Text.lines doubled)
  ['@', '"'] ++ written ++ ['"']

/-- A keyword in its target spelling; any other text with its links as dots. -/
def codeOfWord (text : List Char) : List Char :=
  if text = "True".toList then "true".toList
  else if text = "False".toList then "false".toList
  else if text = "None".toList then "null".toList
  else Text.dotLinks text

/-- The target form of a trimmed text. -/
def codeOfTrimmed (layout : Layout) (text : List Char) : List Char :=
  if Text.isDelimited tripleBacktick text then verbatim layout (Text.inside tripleBacktick text)
  else if Text.isDelimited ['\''] text || Text.isDelimited ['\x60'] text then
    doubleQuoted (Text.inside ['\''] text)
  else codeOfWord text

/-- The target form of a literal, link or expression, without the white space
around it. -/
def code (layout : Layout) (text : List Char) : List Char :=
  codeOfTrimmed layout (Text.trim text)

end Treescribe.Literal
