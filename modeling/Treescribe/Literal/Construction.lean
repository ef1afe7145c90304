import Treescribe.Literal.Quoting

/-!
# Constructions

A source text that names a type and its constructor arguments becomes a `new`
expression: `Foo('a', True)` gives `new Foo("a", true)`.
-/

namespace Treescribe.Literal

/-- The arguments of an argument list, cut at the commas of code outside all
brackets and trimmed. A blank list has none. -/
def splitArguments (text : List Char) : List (List Char) :=
  if (Text.trim text).isEmpty then []
  else ((Text.marks text).splitOnP (·.isCodeAt ',' 0)).map fun part => Text.trim (Text.unmark part)

/-- A construction taken apart: what stands before the parentheses, between them
and behind them. -/
structure ConstructionParts where
  head : List Char
  arguments : List Char
  rest : List Char
deriving DecidableEq, Repr

/-- Cuts a list of marks at the parenthesis that closes the first mark, which is
an opening one in code. -/
def closeParenthesis? : List Text.Mark → Option (List Char × List Char)
  | [] => none
  | opening :: later =>
    match opening.depth? with
    | none => none
    | some depth =>
      let stays := fun mark : Text.Mark => !mark.isCodeAt ')' (depth + 1)
      match later.dropWhile stays with
      | [] => none
      | _ :: rest => some (Text.unmark (later.takeWhile stays), Text.unmark rest)

/-- The parts around the first opening parenthesis of a text. There are none if
that parenthesis stands inside a string or is never closed. -/
def constructionParts? (text : List Char) : Option ConstructionParts :=
  let head := text.takeWhile (· != '(')
  (closeParenthesis? ((Text.marks text).drop head.length)).map fun (arguments, rest) =>
    ⟨head, arguments, rest⟩

/-- The texts joined by a comma and a space. -/
def commaSeparated (texts : List (List Char)) : List Char :=
  List.intercalate [',', ' '] texts

/-- The `new` expression of a trimmed text. A bare name gets empty parentheses,
and a text whose parenthesis is not closed is kept as it is. -/
def construction (layout : Layout) (text : List Char) : List Char :=
  if text.contains '(' then
    match constructionParts? text with
    | some parts =>
      "new ".toList ++ Text.trim parts.head ++ ['('] ++
        commaSeparated ((splitArguments parts.arguments).map (code layout)) ++ [')'] ++
        Text.dotLinks parts.rest
    | none => "new ".toList ++ text
  else
    "new ".toList ++ text ++ ['(', ')']

end Treescribe.Literal
