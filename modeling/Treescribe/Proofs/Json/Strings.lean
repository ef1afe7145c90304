import Mathlib.Data.List.Forall2
import Treescribe.Proofs.Json.Grammar

/-!
# The texts of strings

Each character of a text can be spelled on its own: as its bytes in UTF-8, as a short
escape, as its UTF-16 code unit, or as a surrogate pair beyond the basic plane. Whatever
is chosen for each of them, the string has the text.
-/

namespace Treescribe

namespace Json

/-- The string units that spell a character. -/
inductive CharacterSpelling : Char → List StringUnit → Prop where
  | plain (character : Char) :
      CharacterSpelling character ((String.utf8EncodeChar character).map .byte)
  | short {letter value : UInt8} (listed : (letter, value) ∈ shortEscapes) :
      CharacterSpelling (Char.ofNat value.toNat) [.short value]
  | code {character : Char} (basic : character.toNat < 0x10000) :
      CharacterSpelling character [.code character.toNat]
  | pair {character : Char} {high low : Nat} (high_bound : high < 0x400)
      (low_bound : low < 0x400)
      (point : character.toNat = 0x10000 + high * 0x400 + low) :
      CharacterSpelling character [.code (0xD800 + high), .code (0xDC00 + low)]

/-- The string units that spell a text, character by character. -/
def TextSpelling (text : String) (units : List StringUnit) : Prop :=
  ∃ pieces, List.Forall₂ CharacterSpelling text.toList pieces ∧ units = pieces.flatten

/-- No character is a surrogate. -/
theorem not_surrogate (character : Char) :
    isHighSurrogate character.toNat = false ∧ isLowSurrogate character.toNat = false := by
  have valid : character.toNat < 0xD800 ∨ 0xDFFF < character.toNat ∧ character.toNat < 0x110000 :=
    character.valid
  constructor
  · rw [isHighSurrogate, Bool.and_eq_false_iff, decide_eq_false_iff_not, decide_eq_false_iff_not]
    omega
  · rw [isLowSurrogate, Bool.and_eq_false_iff, decide_eq_false_iff_not, decide_eq_false_iff_not]
    omega

/-- The byte of a short escape is the whole encoding of its character. -/
theorem utf8EncodeChar_of_mem :
    ∀ escape ∈ shortEscapes,
      String.utf8EncodeChar (Char.ofNat escape.2.toNat) = [escape.2] := by
  have all : shortEscapes.all fun escape =>
      String.utf8EncodeChar (Char.ofNat escape.2.toNat) == [escape.2] := by decide
  simpa using all

/-- Bytes that stand for themselves are taken over. -/
theorem bytesFrom?_bytes (bytes held : List UInt8) (rest : List StringUnit) :
    bytesFrom? held (bytes.map .byte ++ rest) = bytesFrom? (bytes.reverse ++ held) rest := by
  induction bytes generalizing held with
  | nil => rfl
  | cons byte bytes inductionHypothesis =>
    rw [List.map_cons, List.cons_append, bytesFrom?, inductionHypothesis, List.reverse_cons,
      List.append_assoc]
    rfl

/-- A code unit that is a character stands for it, also in front of another code unit. -/
theorem bytesFrom?_code (character : Char) (held : List UInt8) (rest : List StringUnit) :
    bytesFrom? held (.code character.toNat :: rest) =
      bytesFrom? ((String.utf8EncodeChar character).reverse ++ held) rest := by
  obtain ⟨not_high, not_low⟩ := not_surrogate character
  cases rest with
  | nil => simp [bytesFrom?, not_high, not_low, Char.ofNat_toNat]
  | cons unit rest =>
    cases unit <;> simp [bytesFrom?, not_high, not_low, Char.ofNat_toNat]

/-- A surrogate pair stands for the character of its code point. -/
theorem bytesFrom?_pair {high low : Nat} (high_bound : high < 0x400) (low_bound : low < 0x400)
    (held : List UInt8) (rest : List StringUnit) :
    bytesFrom? held (.code (0xD800 + high) :: .code (0xDC00 + low) :: rest) =
      bytesFrom?
        ((String.utf8EncodeChar (Char.ofNat (0x10000 + high * 0x400 + low))).reverse ++ held)
        rest := by
  have opens : isHighSurrogate (0xD800 + high) := by
    rw [isHighSurrogate, Bool.and_eq_true, decide_eq_true_iff, decide_eq_true_iff]
    omega
  have completes : isLowSurrogate (0xDC00 + low) := by
    rw [isLowSurrogate, Bool.and_eq_true, decide_eq_true_iff, decide_eq_true_iff]
    omega
  have point : pairCode (0xD800 + high) (0xDC00 + low) = 0x10000 + high * 0x400 + low := by
    unfold pairCode
    omega
  rw [bytesFrom?, if_pos opens, if_pos completes, point]

/-- However a character is spelled, it stands for its bytes in UTF-8. -/
theorem CharacterSpelling.bytes {character : Char} {units : List StringUnit}
    (spelled : CharacterSpelling character units) (held : List UInt8)
    (rest : List StringUnit) :
    bytesFrom? held (units ++ rest) =
      bytesFrom? ((String.utf8EncodeChar character).reverse ++ held) rest := by
  cases spelled with
  | plain => exact bytesFrom?_bytes _ held rest
  | short listed =>
    rw [utf8EncodeChar_of_mem _ listed, List.singleton_append, bytesFrom?]
    rfl
  | code basic => exact bytesFrom?_code character held rest
  | pair high_bound low_bound point =>
    have paired := bytesFrom?_pair high_bound low_bound held rest
    rwa [← point, Char.ofNat_toNat] at paired

/-- However characters are spelled, they stand for their bytes in UTF-8. -/
theorem bytesFrom?_of_spelling {characters : List Char} {pieces : List (List StringUnit)}
    (spelled : List.Forall₂ CharacterSpelling characters pieces) (held : List UInt8) :
    bytesFrom? held pieces.flatten =
      some (held.reverse ++ characters.flatMap String.utf8EncodeChar) := by
  induction spelled generalizing held with
  | nil => rw [List.flatten_nil, bytesFrom?, List.flatMap_nil, List.append_nil]
  | cons first rest inductionHypothesis =>
    rw [List.flatten_cons, first.bytes, inductionHypothesis, List.flatMap_cons,
      List.reverse_append, List.reverse_reverse, List.append_assoc]

/-- The bytes of a text in UTF-8 are read as that text. -/
theorem fromUTF8?_encoding (text : String) :
    String.fromUTF8? ⟨(text.toList.flatMap String.utf8EncodeChar).toArray⟩ = some text := by
  have encoding : (⟨(text.toList.flatMap String.utf8EncodeChar).toArray⟩ : ByteArray) =
      text.toByteArray := by
    rw [← String.utf8Encode_toList, List.utf8Encode, ← List.data_toByteArray]
  rw [encoding, String.fromUTF8?, dif_pos text.isValidUTF8]
  rfl

/-- However its characters are spelled, a string has its text. -/
theorem TextSpelling.read {text : String} {units : List StringUnit}
    (spelled : TextSpelling text units) : text? units = some text := by
  obtain ⟨pieces, spelled, rfl⟩ := spelled
  rw [text?, bytesFrom?_of_spelling spelled, Option.bind_some]
  exact fromUTF8?_encoding text

/-- A text spelled with its own bytes. -/
def plain (text : String) : List StringUnit :=
  (text.toList.flatMap String.utf8EncodeChar).map .byte

/-- Every text can be spelled with its own bytes. -/
theorem textSpelling_plain (text : String) : TextSpelling text (plain text) := by
  refine ⟨text.toList.map fun character => (String.utf8EncodeChar character).map .byte, ?_, ?_⟩
  · rw [List.forall₂_map_right_iff, List.forall₂_same]
    exact fun character _ => .plain character
  · rw [plain, List.map_flatMap, List.flatMap_def]

/-- A byte that can stand for itself in a string. -/
def isPlain (byte : UInt8) : Bool :=
  0x20 ≤ byte && byte != '"'.toUInt8 && byte != '\\'.toUInt8

/-- A text spelled with its own bytes is a string if nothing in it has to be escaped. -/
theorem tokenSpelling_plain {text : String}
    (all_plain : (text.toList.flatMap String.utf8EncodeChar).all isPlain) :
    TokenSpelling (.string (plain text))
      ('"'.toUInt8 :: (text.toList.flatMap String.utf8EncodeChar ++ ['"'.toUInt8])) := by
  have units : List.Forall₂ UnitSpelling (plain text)
      ((text.toList.flatMap String.utf8EncodeChar).map fun byte => [byte]) := by
    rw [plain, List.forall₂_map_left_iff, List.forall₂_map_right_iff, List.forall₂_same]
    intro byte member
    have stands := List.all_eq_true.mp all_plain byte member
    simp only [isPlain, Bool.and_eq_true, decide_eq_true_eq, bne_iff_ne] at stands
    obtain ⟨⟨visible, unquoted⟩, unescaped⟩ := stands
    exact .byte visible unquoted unescaped
  have spelled := TokenSpelling.string units
  rwa [← List.flatMap_def, List.flatMap_singleton'] at spelled

end Json

end Treescribe
