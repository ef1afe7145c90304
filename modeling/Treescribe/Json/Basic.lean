/-!
# JSON values

A JSON text is a sequence of bytes. Strings and numbers are kept as they are
spelled, so that a value nobody looks at needs no meaning beyond its syntax: a
string may then hold bytes that are no text, and a number may have any size.
-/

namespace Treescribe

/-- A unit of a string as it is spelled. -/
inductive StringUnit where
  /-- A byte that stands for itself. -/
  | byte (value : UInt8)
  /-- A backslash and a letter, standing for this byte. -/
  | short (value : UInt8)
  /-- A backslash, `u` and four digits: a UTF-16 code unit. -/
  | code (value : Nat)
deriving DecidableEq, Repr

/-- A JSON value, with the members of its objects in the order of the text. -/
inductive Json where
  | null
  | bool (value : Bool)
  | number (literal : List UInt8)
  | string (units : List StringUnit)
  | array (items : List Json)
  | object (members : List (List StringUnit × Json))

namespace Json

/-- A code unit that opens a surrogate pair. -/
def isHighSurrogate (code : Nat) : Bool :=
  0xD800 ≤ code && code < 0xDC00

/-- A code unit that completes a surrogate pair. -/
def isLowSurrogate (code : Nat) : Bool :=
  0xDC00 ≤ code && code < 0xE000

/-- The code point of a surrogate pair. -/
def pairCode (high low : Nat) : Nat :=
  0x10000 + (high - 0xD800) * 0x400 + (low - 0xDC00)

/-- The bytes that string units stand for, behind the bytes held in reverse.
Surrogates must come in pairs. -/
def bytesFrom? (held : List UInt8) : List StringUnit → Option (List UInt8)
  | [] => some held.reverse
  | .byte value :: rest => bytesFrom? (value :: held) rest
  | .short value :: rest => bytesFrom? (value :: held) rest
  | .code high :: .code low :: rest =>
    if isHighSurrogate high then
      if isLowSurrogate low then
        bytesFrom? ((String.utf8EncodeChar (Char.ofNat (pairCode high low))).reverse ++ held) rest
      else none
    else if isLowSurrogate high then none
    else bytesFrom? ((String.utf8EncodeChar (Char.ofNat high)).reverse ++ held) (.code low :: rest)
  | .code code :: rest =>
    if isHighSurrogate code || isLowSurrogate code then none
    else bytesFrom? ((String.utf8EncodeChar (Char.ofNat code)).reverse ++ held) rest

/-- The text that string units spell: their bytes must be UTF-8. -/
def text? (units : List StringUnit) : Option String :=
  (bytesFrom? [] units).bind fun bytes => String.fromUTF8? ⟨bytes.toArray⟩

/-- A decimal digit. -/
def isDigit (byte : UInt8) : Bool :=
  '0'.toUInt8 ≤ byte && byte ≤ '9'.toUInt8

/-- The number that decimal digits denote. -/
def digitsValue (digits : List UInt8) : Nat :=
  digits.foldl (fun value digit => value * 10 + (digit - '0'.toUInt8).toNat) 0

end Json

end Treescribe
