/-!
# White space

The characters with the Unicode property `White_Space`, and trimming by them.
Texts are lists of characters here and in the other modules of `Text`.
-/

namespace Treescribe.Text

/-- A character with the Unicode property `White_Space`. -/
def isBlank (c : Char) : Bool :=
  let code := c.toNat
  (9 ≤ code && code ≤ 13) || code == 0x20 || code == 0x85 || code == 0xA0 || code == 0x1680 ||
    (0x2000 ≤ code && code ≤ 0x200A) || code == 0x2028 || code == 0x2029 || code == 0x202F ||
    code == 0x205F || code == 0x3000

/-- The text without its leading characters of a class. -/
def dropStart (drops : Char → Bool) (text : List Char) : List Char :=
  text.dropWhile drops

/-- The text without its trailing characters of a class. -/
def dropEnd (drops : Char → Bool) (text : List Char) : List Char :=
  (text.reverse.dropWhile drops).reverse

/-- The text without white space at either end. -/
def trim (text : List Char) : List Char :=
  dropEnd isBlank (dropStart isBlank text)

end Treescribe.Text
