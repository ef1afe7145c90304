import Treescribe.Text.Alphanumeric
import Treescribe.Text.Blank

/-!
# Conditions

The text of a branch may still hold its keyword and the brace that opens its
block; the condition is what stands between them.
-/

namespace Treescribe.Condition

/-- The keywords that may open an `if` branch. -/
def ifKeywords : List String := ["if"]

/-- The keywords that may open an `else if` branch. -/
def elseIfKeywords : List String := ["else if", "elif", "elf"]

/-- The text behind a keyword, unless the keyword is only the start of a name. -/
def behind? (text : List Char) (keyword : String) : Option (List Char) :=
  match keyword.toList.isPrefixOf? text with
  | none => none
  | some rest => if rest.head?.any Text.isWordChar then none else some rest

/-- The text behind the first keyword that opens it, if one does. -/
def withoutKeyword (keywords : List String) (text : List Char) : List Char :=
  (keywords.findSome? (behind? text)).getD text

/-- The condition in the text of a branch. -/
def code (keywords : List String) (text : String) : String :=
  let bare := withoutKeyword keywords (Text.trim text.toList)
  String.ofList (Text.trim (Text.dropEnd (· == '\x7b') bare))

end Treescribe.Condition
