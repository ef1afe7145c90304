/-!
# Cutting and joining texts

Delimiters at the two ends of a text, replacement of a placeholder, and lines.
-/

namespace Treescribe.Text

/-- Whether a text starts and ends with a delimiter, the two not overlapping. -/
def isDelimited (delimiter text : List Char) : Bool :=
  2 * delimiter.length ≤ text.length && delimiter.isPrefixOf text && delimiter.isSuffixOf text

/-- What stands between the two delimiters of a delimited text. -/
def inside (delimiter text : List Char) : List Char :=
  (text.drop delimiter.length).take (text.length - 2 * delimiter.length)

/-- Removes copies of a marker from the front of a text. `skip` counts the
characters of the copy just found that are still to be dropped. -/
def dropLeadingFrom (marker : List Char) : (skip : Nat) → List Char → List Char
  | _, [] => []
  | skip + 1, _ :: rest => dropLeadingFrom marker skip rest
  | 0, c :: rest =>
    if marker.isPrefixOf (c :: rest) then dropLeadingFrom marker (marker.length - 1) rest
    else c :: rest

/-- The text without the copies of a non-empty marker at its front. -/
def dropLeading (marker text : List Char) : List Char :=
  dropLeadingFrom marker 0 text

/-- Replaces every occurrence of a placeholder, searching from the left and
going on behind each occurrence. `skip` counts the characters of the occurrence
just replaced that are still to be passed over. -/
def fillFrom (placeholder filling : List Char) : (skip : Nat) → List Char → List Char
  | _, [] => []
  | skip + 1, _ :: rest => fillFrom placeholder filling skip rest
  | 0, c :: rest =>
    if placeholder.isPrefixOf (c :: rest) then
      filling ++ fillFrom placeholder filling (placeholder.length - 1) rest
    else
      c :: fillFrom placeholder filling 0 rest

/-- Replaces every occurrence of a non-empty placeholder by a filling. -/
def fill (placeholder filling text : List Char) : List Char :=
  fillFrom placeholder filling 0 text

/-- The lines of a text, with the characters of the line being read held in
reverse. A line feed ends a line and takes one carriage return before it along;
what follows the last line feed is a line unless it is empty. -/
def linesFrom (held : List Char) : List Char → List (List Char)
  | [] => if held.isEmpty then [] else [held.reverse]
  | '\n' :: rest =>
    (match held with
      | '\r' :: line => line.reverse
      | line => line.reverse) :: linesFrom [] rest
  | c :: rest => linesFrom (c :: held) rest

/-- The lines of a text. -/
def lines (text : List Char) : List (List Char) :=
  linesFrom [] text

/-- The text with each occurrence of a character written as a replacement. -/
def substitute (target : Char) (replacement : List Char) (text : List Char) : List Char :=
  text.flatMap fun c => if c == target then replacement else [c]

end Treescribe.Text
