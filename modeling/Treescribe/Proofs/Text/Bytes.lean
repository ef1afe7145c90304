import Mathlib.Data.List.TakeWhile
import Treescribe.Text.Bytes

/-!
# Reading bytes as text

Reading gives the text back that was encoded. A byte of ASCII is always read as itself, and
nothing else is read as its character, so reading goes on anew behind every such byte.
-/

namespace Treescribe.Text

/-- Bytes are read one after another. -/
theorem lossyFrom_cons (begun : Option Begun) (byte : UInt8) (rest : List UInt8) :
    lossyFrom begun (byte :: rest) =
      (readByte begun byte).text ++ lossyFrom (readByte begun byte).begun rest :=
  rfl

/-- The bytes with which a character goes on. -/
theorem Begun.continues_iff {begun : Begun} {byte : UInt8} :
    begun.continues byte = true ↔
      0x80 + begun.least ≤ byte.toNat ∧ byte.toNat ≤ 0x80 + begun.most := by
  simp [continues]

/-- No byte of ASCII begins a character of several bytes. -/
theorem not_ascii_of_begun? {byte : UInt8} {begun : Begun} (first : begun? byte = some begun) :
    ¬ byte.toNat < 0x80 := by
  intro ascii
  simp only [begun?] at first
  rw [dif_neg (by omega), dif_neg (by omega), dif_neg (by omega)] at first
  cases first

/-- A byte that begins a character leaves it to those behind. -/
theorem lossyFrom_first {byte : UInt8} {begun : Begun} (first : begun? byte = some begun)
    (rest : List UInt8) : lossyFrom none (byte :: rest) = lossyFrom (some begun) rest := by
  rw [lossyFrom_cons, readByte, readFirst, if_neg (not_ascii_of_begun? first), first]
  rfl

/-- A byte in the middle of a character leaves it to those behind. -/
theorem lossyFrom_middle {begun : Begun} {byte : UInt8} (continues : begun.continues byte = true)
    {behind : Nat} (more : begun.behind = behind + 1) (rest : List UInt8) :
    ∃ next, lossyFrom (some begun) (byte :: rest) = lossyFrom (some next) rest ∧
      next.bits = begun.bitsWith byte ∧ next.least = 0x00 ∧ next.most = 0x3F ∧
      next.behind = behind := by
  have found : ∃ next, begun.readNext? byte = some { begun := some next } ∧
      next.bits = begun.bitsWith byte ∧ next.least = 0x00 ∧ next.most = 0x3F ∧
      next.behind = behind := by
    unfold Begun.readNext?
    rw [dif_pos continues]
    split
    · omega
    · rename_i other same
      exact ⟨_, rfl, rfl, rfl, rfl, Nat.succ.inj (same.symm.trans more)⟩
  obtain ⟨next, read, same⟩ := found
  refine ⟨next, ?_, same⟩
  rw [lossyFrom_cons, readByte, read]
  rfl

/-- The last byte of a character completes it. -/
theorem lossyFrom_last {begun : Begun} {byte : UInt8} (continues : begun.continues byte = true)
    (last : begun.behind = 0) (rest : List UInt8) :
    lossyFrom (some begun) (byte :: rest) =
      Char.ofNat (begun.bitsWith byte) :: lossyFrom none rest := by
  have read : begun.readNext? byte = some { text := [Char.ofNat (begun.bitsWith byte)] } := by
    unfold Begun.readNext?
    rw [dif_pos continues]
    split
    · rfl
    · omega
  rw [lossyFrom_cons, readByte, read]
  rfl

/-- The byte of a character that some number of others is behind, given the code. -/
def trailingByte (behind code : Nat) : UInt8 :=
  UInt8.ofNat (code / span behind % 0x40 + 0x80)

/-- The last bytes of a character, given how many those are and the code. -/
def trailing : Nat → Nat → List UInt8
  | 0, _ => []
  | behind + 1, code => trailingByte behind code :: trailing behind code

/-- There is a code for any number of last bytes. -/
theorem span_pos (behind : Nat) : 0 < span behind := by
  induction behind with
  | zero => decide
  | succ behind inductionHypothesis =>
    rw [span]
    omega

/-- A code that a character can have which was begun, with bits that fit into its next byte. -/
structure Begun.Allows (begun : Begun) (code : Nat) : Prop where
  low : (begun.bits * 0x40 + begun.least) * span begun.behind ≤ code
  high : code < (begun.bits * 0x40 + begun.most + 1) * span begun.behind
  sixBits : begun.most ≤ 0x3F

/-- A character goes on with the next byte of any code that it can have. -/
theorem Begun.Allows.continues {begun : Begun} {code : Nat} (allows : begun.Allows code) :
    begun.continues (trailingByte begun.behind code) = true ∧
      begun.bitsWith (trailingByte begun.behind code) = code / span begun.behind := by
  have number : (trailingByte begun.behind code).toNat =
      code / span begun.behind % 0x40 + 0x80 :=
    UInt8.toNat_ofNat_of_lt' (show _ < 256 by omega)
  have low : begun.bits * 0x40 + begun.least ≤ code / span begun.behind :=
    (Nat.le_div_iff_mul_le (span_pos begun.behind)).mpr allows.low
  have high : code / span begun.behind < begun.bits * 0x40 + begun.most + 1 :=
    (Nat.div_lt_iff_lt_mul (span_pos begun.behind)).mpr allows.high
  have sixBits := allows.sixBits
  refine ⟨Begun.continues_iff.mpr (by omega), ?_⟩
  unfold bitsWith
  omega

/-- A character that was begun is completed by the last bytes of any code that it can have. -/
theorem Begun.Allows.lossyFrom {begun : Begun} {code : Nat} (allows : begun.Allows code)
    (rest : List UInt8) :
    Text.lossyFrom (some begun) (trailing (begun.behind + 1) code ++ rest) =
      Char.ofNat code :: Text.lossyFrom none rest := by
  induction count : begun.behind generalizing begun with
  | zero =>
    obtain ⟨continues, bits⟩ := allows.continues
    rw [count] at continues bits
    rw [trailing, List.cons_append, lossyFrom_last continues count, bits, span, Nat.div_one]
    rfl
  | succ behind inductionHypothesis =>
    obtain ⟨continues, bits⟩ := allows.continues
    rw [count] at continues bits
    obtain ⟨next, goesOn, nextBits, least, most, nextBehind⟩ :=
      lossyFrom_middle continues count (trailing (behind + 1) code ++ rest)
    have nextAllows : next.Allows code := by
      have split : (code / span (behind + 1) * 0x40) * span behind =
          span (behind + 1) * (code / span (behind + 1)) := by
        rw [span, Nat.mul_assoc, Nat.mul_comm]
      refine ⟨?_, ?_, by omega⟩
      · rw [nextBits, bits, least, nextBehind, Nat.add_zero, split]
        exact Nat.mul_div_le code _
      · rw [nextBits, bits, most, nextBehind, Nat.add_assoc, Nat.add_mul, split]
        exact Nat.lt_mul_div_succ code (span_pos _)
    rw [trailing, List.cons_append, goesOn]
    exact inductionHypothesis nextAllows nextBehind

/-- The first byte of a character and the last bytes of any code that it can have are read as the
character with that code. -/
theorem Begun.Allows.completed {begun : Begun} {code : Nat} (allows : begun.Allows code)
    {byte : UInt8} (first : begun? byte = some begun) (rest : List UInt8) :
    Text.lossyFrom none (byte :: (trailing (begun.behind + 1) code ++ rest)) =
      Char.ofNat code :: Text.lossyFrom none rest :=
  (lossyFrom_first first _).trans (allows.lossyFrom rest)

/-- A code point that is valid is the one of its character. -/
theorem toNat_ofNat_of_isValidChar {code : Nat} (valid : code.isValidChar) :
    (Char.ofNat code).toNat = code := by
  rw [Char.ofNat, dif_pos valid]
  rfl

end Treescribe.Text
