/-!
# Number literals

Integers in four radixes and decimal floats, as they may be written in a source
text. Underscores may separate the digits.
-/

namespace Treescribe.Literal

/-- The text behind at most one sign. -/
def unsigned : List Char → List Char
  | '+' :: body => body
  | '-' :: body => body
  | body => body

/-- The radixes an integer literal can be written in. -/
inductive Radix where
  | binary
  | octal
  | decimal
  | hexadecimal
deriving DecidableEq, Repr

/-- The number of digits of a radix. -/
def Radix.base : Radix → Nat
  | .binary => 2
  | .octal => 8
  | .decimal => 10
  | .hexadecimal => 16

/-- The value of a digit or letter, `a` and `A` being ten. -/
def digitValue? (c : Char) : Option Nat :=
  if '0' ≤ c && c ≤ '9' then some (c.toNat - '0'.toNat)
  else if 'a' ≤ c && c ≤ 'z' then some (c.toNat - 'a'.toNat + 10)
  else if 'A' ≤ c && c ≤ 'Z' then some (c.toNat - 'A'.toNat + 10)
  else none

/-- Whether a character is a digit of a radix. -/
def Radix.isDigit (radix : Radix) (c : Char) : Bool :=
  (digitValue? c).any (· < radix.base)

/-- The radix of an unsigned integer literal, and its text behind the mark of
that radix. -/
def splitRadix : List Char → Radix × List Char
  | '0' :: 'x' :: body => (.hexadecimal, body)
  | '0' :: 'X' :: body => (.hexadecimal, body)
  | '0' :: 'o' :: body => (.octal, body)
  | '0' :: 'O' :: body => (.octal, body)
  | '0' :: 'b' :: body => (.binary, body)
  | '0' :: 'B' :: body => (.binary, body)
  | body => (.decimal, body)

/-- Digits of a radix and underscores, at least one character, and no underscore
in front. -/
def isDigits (radix : Radix) (body : List Char) : Bool :=
  !body.isEmpty && body.head? != some '_' && body.all fun c => c == '_' || radix.isDigit c

/-- An integer literal: an optional sign, an optional radix mark and digits. -/
def isInteger (text : List Char) : Bool :=
  let (radix, body) := splitRadix (unsigned text)
  isDigits radix body

/-- An integer literal without a radix mark. -/
def isDecimalInteger (text : List Char) : Bool :=
  isInteger text && (splitRadix (unsigned text)).1 == .decimal

/-- An optional exponent: nothing, or its mark, an optional sign and digits. -/
def isExponent : List Char → Bool
  | [] => true
  | mark :: rest =>
    (mark == 'e' || mark == 'E') && !(unsigned rest).isEmpty && (unsigned rest).all Char.isDigit

/-- An unsigned decimal: digits, an optional point and more digits, at least one
digit in all, and an optional exponent. -/
def isDecimal (text : List Char) : Bool :=
  let whole := text.takeWhile Char.isDigit
  match text.dropWhile Char.isDigit with
  | '.' :: rest =>
    let fraction := rest.takeWhile Char.isDigit
    !(whole.isEmpty && fraction.isEmpty) && isExponent (rest.dropWhile Char.isDigit)
  | rest => !whole.isEmpty && isExponent rest

/-- A float literal: an optional sign and a decimal with a point or an exponent.
Its first character is a digit or the point; underscores may stand anywhere
behind that. -/
def isFloat (text : List Char) : Bool :=
  let body := unsigned text
  body.head?.any (fun c => c.isDigit || c == '.') &&
    body.any (fun c => c == '.' || c == 'e' || c == 'E') &&
    isDecimal (body.filter (· != '_'))

end Treescribe.Literal
