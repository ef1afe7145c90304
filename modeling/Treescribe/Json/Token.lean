import Treescribe.Json.Basic

/-!
# JSON tokens

The tokens of a JSON text, read one byte at a time. A string or a bracket ends
with its last byte; a number or a word ends before the first byte that cannot
belong to it, and is checked as a whole then.
-/

namespace Treescribe

namespace Json

/-- A token of a JSON text. -/
inductive Token where
  | openArray
  | closeArray
  | openObject
  | closeObject
  | comma
  | colon
  | null
  | bool (value : Bool)
  | number (literal : List UInt8)
  | string (units : List StringUnit)
deriving DecidableEq, Repr

/-- White space between tokens. -/
def isSpace (byte : UInt8) : Bool :=
  byte == ' '.toUInt8 || byte == '\t'.toUInt8 || byte == '\n'.toUInt8 || byte == '\r'.toUInt8

/-- The tokens of a single byte. -/
def punctuation? (byte : UInt8) : Option Token :=
  if byte == '['.toUInt8 then some .openArray
  else if byte == ']'.toUInt8 then some .closeArray
  else if byte == '\x7b'.toUInt8 then some .openObject
  else if byte == '\x7d'.toUInt8 then some .closeObject
  else if byte == ','.toUInt8 then some .comma
  else if byte == ':'.toUInt8 then some .colon
  else none

/-- A byte that can occur in a number. -/
def isNumberByte (byte : UInt8) : Bool :=
  isDigit byte || byte == '-'.toUInt8 || byte == '+'.toUInt8 || byte == '.'.toUInt8 ||
    byte == 'e'.toUInt8 || byte == 'E'.toUInt8

/-- A byte that can start a number. -/
def startsNumber (byte : UInt8) : Bool :=
  isDigit byte || byte == '-'.toUInt8

/-- A lower-case letter. -/
def isLetter (byte : UInt8) : Bool :=
  'a'.toUInt8 ≤ byte && byte ≤ 'z'.toUInt8

/-- An optional exponent and nothing else. -/
def isExponent : List UInt8 → Bool
  | [] => true
  | mark :: rest =>
    let digits :=
      match rest with
      | sign :: digits => if sign == '+'.toUInt8 || sign == '-'.toUInt8 then digits else rest
      | [] => []
    (mark == 'e'.toUInt8 || mark == 'E'.toUInt8) && !digits.isEmpty && digits.all isDigit

/-- An optional fraction, an optional exponent and nothing else. -/
def isFraction : List UInt8 → Bool
  | [] => true
  | mark :: rest =>
    if mark == '.'.toUInt8 then
      rest.head?.any isDigit && isExponent (rest.dropWhile isDigit)
    else isExponent (mark :: rest)

/-- A number without its sign: its whole part is zero or starts with another
digit. -/
def isUnsignedNumber : List UInt8 → Bool
  | [] => false
  | first :: rest =>
    if first == '0'.toUInt8 then isFraction rest
    else isDigit first && isFraction (rest.dropWhile isDigit)

/-- A number literal. -/
def isNumber (literal : List UInt8) : Bool :=
  match literal with
  | first :: rest =>
    if first == '-'.toUInt8 then isUnsignedNumber rest else isUnsignedNumber literal
  | [] => false

/-- The tokens spelled as words. -/
def word? (letters : List UInt8) : Option Token :=
  if letters = "null".toUTF8.toList then some .null
  else if letters = "true".toUTF8.toList then some (.bool true)
  else if letters = "false".toUTF8.toList then some (.bool false)
  else none

/-- The byte that a backslash and a letter stand for. -/
def shortEscape? (letter : UInt8) : Option UInt8 :=
  if letter == '"'.toUInt8 || letter == '\\'.toUInt8 || letter == '/'.toUInt8 then some letter
  else if letter == 'b'.toUInt8 then some 0x08
  else if letter == 'f'.toUInt8 then some 0x0C
  else if letter == 'n'.toUInt8 then some 0x0A
  else if letter == 'r'.toUInt8 then some 0x0D
  else if letter == 't'.toUInt8 then some 0x09
  else none

/-- The value of a hexadecimal digit. -/
def hexValue? (byte : UInt8) : Option Nat :=
  if isDigit byte then some (byte - '0'.toUInt8).toNat
  else if 'a'.toUInt8 ≤ byte && byte ≤ 'f'.toUInt8 then some ((byte - 'a'.toUInt8).toNat + 10)
  else if 'A'.toUInt8 ≤ byte && byte ≤ 'F'.toUInt8 then some ((byte - 'A'.toUInt8).toNat + 10)
  else none

/-- What the bytes read last belong to. Units and bytes are held latest first. -/
inductive LexerMode where
  | between
  | inString (units : List StringUnit)
  /-- In a string, right behind a backslash. -/
  | inEscape (units : List StringUnit)
  /-- In a string, with so many digits of a code unit still to come. -/
  | inCode (units : List StringUnit) (missing : Nat) (value : Nat)
  | inNumber (bytes : List UInt8)
  | inWord (letters : List UInt8)
deriving DecidableEq, Repr

/-- A reading of tokens: those complete, latest first, and the one begun. -/
structure Lexer where
  tokens : List Token := []
  mode : LexerMode := .between
deriving DecidableEq, Repr

namespace Lexer

/-- The reading with one more token. -/
def emit (lexer : Lexer) (token : Token) : Lexer :=
  { tokens := token :: lexer.tokens }

/-- Completes the number or word that the last byte belongs to. -/
def settle? (lexer : Lexer) : Option Lexer :=
  match lexer.mode with
  | .between => some lexer
  | .inNumber bytes =>
    if isNumber bytes.reverse then some (lexer.emit (.number bytes.reverse)) else none
  | .inWord letters => (word? letters.reverse).map lexer.emit
  | _ => none

/-- A byte that starts something new. -/
def begin? (lexer : Lexer) (byte : UInt8) : Option Lexer :=
  if isSpace byte then some lexer
  else if byte == '"'.toUInt8 then some { lexer with mode := .inString [] }
  else if startsNumber byte then some { lexer with mode := .inNumber [byte] }
  else if isLetter byte then some { lexer with mode := .inWord [byte] }
  else (punctuation? byte).map lexer.emit

/-- The reading after one more byte. -/
def feed? (lexer : Lexer) (byte : UInt8) : Option Lexer :=
  match lexer.mode with
  | .inString units =>
    if byte == '"'.toUInt8 then some (lexer.emit (.string units.reverse))
    else if byte == '\\'.toUInt8 then some { lexer with mode := .inEscape units }
    else if byte < 0x20 then none
    else some { lexer with mode := .inString (.byte byte :: units) }
  | .inEscape units =>
    if byte == 'u'.toUInt8 then some { lexer with mode := .inCode units 4 0 }
    else
      (shortEscape? byte).map fun value =>
        { lexer with mode := .inString (.short value :: units) }
  | .inCode units missing value =>
    (hexValue? byte).map fun digit =>
      let value := value * 16 + digit
      if missing ≤ 1 then { lexer with mode := .inString (.code value :: units) }
      else { lexer with mode := .inCode units (missing - 1) value }
  | .inNumber bytes =>
    if isNumberByte byte then some { lexer with mode := .inNumber (byte :: bytes) }
    else lexer.settle?.bind (·.begin? byte)
  | .inWord letters =>
    if isLetter byte then some { lexer with mode := .inWord (byte :: letters) }
    else lexer.settle?.bind (·.begin? byte)
  | .between => lexer.begin? byte

end Lexer

/-- The tokens of a text. -/
def tokens? (bytes : List UInt8) : Option (List Token) := do
  let lexer ← bytes.foldlM Lexer.feed? {}
  let settled ← lexer.settle?
  return settled.tokens.reverse

end Json

end Treescribe
