/-!
# Bytes of text

Text is encoded as UTF-8. Bytes that encode no text are read all the same, one after another:
those that begin a character and do not go on with it stand for one replacement character,
and so does a byte that begins none.
-/

namespace Treescribe.Text

/-- The bytes of characters. -/
def encode (text : List Char) : List UInt8 :=
  text.flatMap String.utf8EncodeChar

/-- The character that stands for bytes which are none. -/
def replacement : Char := '\uFFFD'

/-- The number of codes that differ only in the last bytes, given how many those are. -/
def span : Nat → Nat
  | 0 => 1
  | behind + 1 => 0x40 * span behind

/-- A character of several bytes that was begun: its bits so far, the range of the six bits in
its next byte, and the number of bytes behind that one. All codes that it can have are
characters, and need more than one byte. -/
structure Begun where
  bits : Nat
  least : Nat := 0x00
  most : Nat := 0x3F
  behind : Nat
  proper : ∀ code, (bits * 0x40 + least) * span behind ≤ code →
    code < (bits * 0x40 + most + 1) * span behind → 0x80 ≤ code ∧ code.isValidChar
deriving DecidableEq, Repr

/-- The character that a byte begins. The range of the next byte leaves out what fits into fewer
bytes, the surrogates, and what is beyond the last character. -/
def begun? (byte : UInt8) : Option Begun :=
  let first := byte.toNat
  if two : 0xC2 ≤ first ∧ first ≤ 0xDF then
    some
      { bits := first - 0xC0
        behind := 0
        proper code low high := by
          simp only [span] at low high
          unfold Nat.isValidChar
          omega }
  else if three : 0xE0 ≤ first ∧ first ≤ 0xEF then
    some
      { bits := first - 0xE0
        least := if first = 0xE0 then 0x20 else 0x00
        most := if first = 0xED then 0x1F else 0x3F
        behind := 1
        proper code low high := by
          simp only [span] at low high
          unfold Nat.isValidChar
          split at low <;> split at high <;> omega }
  else if four : 0xF0 ≤ first ∧ first ≤ 0xF4 then
    some
      { bits := first - 0xF0
        least := if first = 0xF0 then 0x10 else 0x00
        most := if first = 0xF4 then 0x0F else 0x3F
        behind := 2
        proper code low high := by
          simp only [span] at low high
          unfold Nat.isValidChar
          split at low <;> split at high <;> omega }
  else none

/-- Characters that were read, and the one that was begun behind them. -/
structure Reading where
  text : List Char := []
  begun : Option Begun := none
deriving DecidableEq, Repr

/-- What is read of a byte that comes first. -/
def readFirst (byte : UInt8) : Reading :=
  if byte.toNat < 0x80 then { text := [Char.ofNat byte.toNat] }
  else
    match begun? byte with
    | some begun => { begun := some begun }
    | none => { text := [replacement] }

namespace Begun

/-- Whether a byte goes on with a character. -/
def continues (begun : Begun) (byte : UInt8) : Bool :=
  0x80 + begun.least ≤ byte.toNat && byte.toNat ≤ 0x80 + begun.most

/-- The bits of a character with those of one more byte. -/
def bitsWith (begun : Begun) (byte : UInt8) : Nat :=
  begun.bits * 0x40 + (byte.toNat - 0x80)

/-- A character with one more byte can have no codes that it could not have before. -/
theorem proper_next {begun : Begun} {byte : UInt8} (continues : begun.continues byte = true)
    {behind : Nat} (more : begun.behind = behind + 1) (code : Nat)
    (low : (begun.bitsWith byte * 0x40 + 0x00) * span behind ≤ code)
    (high : code < (begun.bitsWith byte * 0x40 + 0x3F + 1) * span behind) :
    0x80 ≤ code ∧ code.isValidChar := by
  have inside : begun.bits * 0x40 + begun.least ≤ begun.bitsWith byte ∧
      begun.bitsWith byte ≤ begun.bits * 0x40 + begun.most := by
    simp only [Begun.continues, Bool.and_eq_true, decide_eq_true_eq] at continues
    unfold bitsWith
    omega
  refine begun.proper code ?_ ?_
  · refine Nat.le_trans ?_ low
    rw [more, span, ← Nat.mul_assoc, Nat.add_zero]
    exact Nat.mul_le_mul_right _ (Nat.mul_le_mul_right _ inside.1)
  · refine Nat.lt_of_lt_of_le high ?_
    rw [more, span, ← Nat.mul_assoc]
    refine Nat.mul_le_mul_right _ ?_
    omega

/-- What is read of a byte that goes on with a character, if it does. -/
def readNext? (begun : Begun) (byte : UInt8) : Option Reading :=
  if continues : begun.continues byte = true then
    match more : begun.behind with
    | 0 => some { text := [Char.ofNat (begun.bitsWith byte)] }
    | behind + 1 =>
      let next : Begun :=
        { bits := begun.bitsWith byte, behind, proper := proper_next continues more }
      some { begun := some next }
  else none

end Begun

/-- What is read of a byte. A character that it does not go on with is given up. -/
def readByte (begun : Option Begun) (byte : UInt8) : Reading :=
  match begun with
  | none => readFirst byte
  | some begun =>
    match begun.readNext? byte with
    | some reading => reading
    | none => { readFirst byte with text := replacement :: (readFirst byte).text }

/-- What is read of bytes behind a character that was begun. -/
def lossyFrom (begun : Option Begun) : List UInt8 → List Char
  | [] => if begun.isSome then [replacement] else []
  | byte :: rest => (readByte begun byte).text ++ lossyFrom (readByte begun byte).begun rest

/-- The text that is read of bytes, with replacement characters for what is no text. -/
def lossy (bytes : List UInt8) : List Char :=
  lossyFrom none bytes

end Treescribe.Text
