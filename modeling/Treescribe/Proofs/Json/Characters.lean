import Treescribe.Proofs.Json.Strings
import Treescribe.Proofs.Text.Bytes

/-!
# What a string stands for

A string has a text exactly if its units spell that text, character by character. Units that
stand for bytes can be told apart from escaped characters: only the first byte of a character
can be a first byte, so a character that starts with a byte of its own goes on with such bytes
to its end.
-/

namespace Treescribe

namespace Json

/-- A list of units each of which can be spelled. -/
def SpellableUnits (units : List StringUnit) : Prop :=
  ∀ unit ∈ units, ∃ bytes, UnitSpelling unit bytes

/-- A code unit is a number of 16 bits. -/
theorem code_lt_of_spelling {code : Nat} {bytes : List UInt8}
    (spelled : UnitSpelling (.code code) bytes) : code < 0x10000 := by
  cases spelled with
  | code first_digit second_digit third_digit fourth_digit =>
    have first_bound := first_digit.1
    have second_bound := second_digit.1
    have third_bound := third_digit.1
    have fourth_bound := fourth_digit.1
    omega

/-- A code unit that is no surrogate spells its character. -/
theorem characterSpelling_code {code : Nat} (bound : code < 0x10000)
    (not_high : isHighSurrogate code = false) (not_low : isLowSurrogate code = false) :
    CharacterSpelling (Char.ofNat code) [.code code] := by
  have outside : code < 0xD800 ∨ 0xDFFF < code := by
    simp only [isHighSurrogate, isLowSurrogate, Bool.and_eq_false_iff,
      decide_eq_false_iff_not] at not_high not_low
    omega
  have point : (Char.ofNat code).toNat = code := by
    apply Text.toNat_ofNat_of_isValidChar
    unfold Nat.isValidChar
    omega
  have spelled : CharacterSpelling (Char.ofNat code) [.code (Char.ofNat code).toNat] :=
    .code (by omega)
  rwa [point] at spelled

/-- A surrogate pair spells the character of its code point. -/
theorem characterSpelling_pair {high low : Nat} (opens : isHighSurrogate high)
    (completes : isLowSurrogate low) :
    CharacterSpelling (Char.ofNat (pairCode high low)) [.code high, .code low] := by
  simp only [isHighSurrogate, Bool.and_eq_true, decide_eq_true_eq] at opens
  simp only [isLowSurrogate, Bool.and_eq_true, decide_eq_true_eq] at completes
  obtain ⟨first, rfl⟩ := Nat.exists_eq_add_of_le opens.1
  obtain ⟨second, rfl⟩ := Nat.exists_eq_add_of_le completes.1
  have code : pairCode (0xD800 + first) (0xDC00 + second) =
      0x10000 + first * 0x400 + second := by
    unfold pairCode
    omega
  rw [code]
  refine .pair (by omega) (by omega) (Text.toNat_ofNat_of_isValidChar ?_)
  unfold Nat.isValidChar
  omega

/-- The bytes that units stand for: a byte each, or those of an escaped character. -/
inductive Denotes : List StringUnit → List UInt8 → Prop where
  | nil : Denotes [] []
  | byte (value : UInt8) {units : List StringUnit} {bytes : List UInt8}
      (rest : Denotes units bytes) : Denotes (.byte value :: units) (value :: bytes)
  | escape {character : Char} {front units : List StringUnit} {bytes : List UInt8}
      (spelled : CharacterSpelling character front) (rest : Denotes units bytes) :
      Denotes (front ++ units) (String.utf8EncodeChar character ++ bytes)

/-- What units are read as is what they stand for. -/
theorem denotes_of_bytesFrom? {held : List UInt8} {units : List StringUnit} {bytes : List UInt8}
    (spelled : SpellableUnits units) (read : bytesFrom? held units = some bytes) :
    ∃ own, bytes = held.reverse ++ own ∧ Denotes units own := by
  have escaped {character : Char} {front rest : List StringUnit} {held : List UInt8}
      (spelling : CharacterSpelling character front)
      (later : ∃ own, bytes = ((String.utf8EncodeChar character).reverse ++ held).reverse ++ own ∧
        Denotes rest own) :
      ∃ own, bytes = held.reverse ++ own ∧ Denotes (front ++ rest) own := by
    obtain ⟨own, same, denotes⟩ := later
    refine ⟨_, ?_, .escape spelling denotes⟩
    rw [same, List.reverse_append, List.reverse_reverse, List.append_assoc]
  fun_induction bytesFrom? held units with
  | case1 held =>
    cases read
    exact ⟨[], (List.append_nil _).symm, .nil⟩
  | case2 held value rest inductionHypothesis =>
    obtain ⟨own, rfl, denotes⟩ := inductionHypothesis (List.forall_mem_cons.mp spelled).2 read
    refine ⟨value :: own, ?_, .byte value denotes⟩
    rw [List.reverse_cons, List.append_assoc, List.singleton_append]
  | case3 held value rest inductionHypothesis =>
    obtain ⟨⟨_, here⟩, later⟩ := List.forall_mem_cons.mp spelled
    cases here with
    | short listed =>
      have spelling := CharacterSpelling.short listed
      refine escaped spelling ?_
      rw [utf8EncodeChar_of_mem _ listed]
      exact inductionHypothesis later read
  | case4 held high low rest opens completes inductionHypothesis =>
    have later := (List.forall_mem_cons.mp (List.forall_mem_cons.mp spelled).2).2
    exact escaped (characterSpelling_pair opens completes) (inductionHypothesis later read)
  | case7 held high low rest not_high not_low inductionHypothesis =>
    obtain ⟨⟨_, here⟩, later⟩ := List.forall_mem_cons.mp spelled
    have spelling := characterSpelling_code (code_lt_of_spelling here)
      (Bool.eq_false_iff.mpr not_high) (Bool.eq_false_iff.mpr not_low)
    exact escaped spelling (inductionHypothesis later read)
  | case9 held code rest alone no_surrogate inductionHypothesis =>
    obtain ⟨⟨_, here⟩, later⟩ := List.forall_mem_cons.mp spelled
    obtain ⟨not_high, not_low⟩ := Bool.or_eq_false_iff.mp (Bool.eq_false_iff.mpr no_surrogate)
    have spelling := characterSpelling_code (code_lt_of_spelling here) not_high not_low
    exact escaped spelling (inductionHypothesis later read)
  | _ => cases read

/-- The encoding of a character starts with a byte that no encoding goes on with. -/
theorem exists_encoding (character : Char) :
    ∃ first others, String.utf8EncodeChar character = first :: others ∧ first.IsUTF8FirstByte ∧
      ∀ byte ∈ others, ¬ byte.IsUTF8FirstByte := by
  have each : ∀ place byte, (String.utf8EncodeChar character)[place]? = some byte →
      (byte.IsUTF8FirstByte ↔ place = 0) := by
    intro place byte found
    obtain ⟨inside, rfl⟩ := List.getElem?_eq_some_iff.mp found
    exact UInt8.isUTF8FirstByte_getElem_utf8EncodeChar
  have nonempty : String.utf8EncodeChar character ≠ [] := by
    rw [← List.length_pos_iff, String.length_utf8EncodeChar]
    exact character.utf8Size_pos
  obtain ⟨first, others, encoding⟩ := List.exists_cons_of_ne_nil nonempty
  rw [encoding] at each
  refine ⟨first, others, encoding, (each 0 first rfl).mpr rfl, fun byte member is_first => ?_⟩
  obtain ⟨place, found⟩ := List.getElem?_of_mem member
  exact Nat.succ_ne_zero place ((each (place + 1) byte found).mp is_first)

/-- Two characters whose encodings come first in the same bytes are the same. -/
theorem eq_of_encoding_append {left right : Char} {front behind : List UInt8}
    (same : String.utf8EncodeChar left ++ front = String.utf8EncodeChar right ++ behind) :
    left = right ∧ front = behind := by
  have decoded := congrArg (fun bytes => (List.toByteArray bytes).utf8DecodeChar? 0) same
  simp only [List.toByteArray_append, ByteArray.utf8DecodeChar?_utf8EncodeChar_append,
    Option.some.injEq] at decoded
  subst decoded
  exact ⟨rfl, List.append_cancel_left same⟩

/-- Bytes that are no first bytes stand for themselves. -/
theorem Denotes.split {others : List UInt8} (later : ∀ byte ∈ others, ¬ byte.IsUTF8FirstByte)
    {units : List StringUnit} {bytes : List UInt8} (denotes : Denotes units (others ++ bytes)) :
    ∃ rest, units = others.map .byte ++ rest ∧ Denotes rest bytes := by
  induction others generalizing units with
  | nil => exact ⟨units, rfl, denotes⟩
  | cons byte others inductionHypothesis =>
    obtain ⟨not_first, later⟩ := List.forall_mem_cons.mp later
    generalize whole : (byte :: others) ++ bytes = all at denotes
    cases denotes with
    | nil => cases whole
    | byte value own =>
      cases whole
      obtain ⟨rest, rfl, rest_denotes⟩ := inductionHypothesis later own
      exact ⟨rest, rfl, rest_denotes⟩
    | @escape character _ _ _ spelled own =>
      obtain ⟨first, _, encoding, is_first, -⟩ := exists_encoding character
      rw [encoding, List.cons_append, List.cons_append] at whole
      obtain ⟨rfl, -⟩ := List.cons.inj whole
      exact absurd is_first not_first

/-- Units that stand for the encoding of characters spell those characters. -/
theorem Denotes.spelling {characters : List Char} {units : List StringUnit}
    (denotes : Denotes units (characters.flatMap String.utf8EncodeChar)) :
    ∃ pieces, List.Forall₂ CharacterSpelling characters pieces ∧ units = pieces.flatten := by
  induction characters generalizing units with
  | nil =>
    generalize whole : ([] : List Char).flatMap String.utf8EncodeChar = all at denotes
    cases denotes with
    | nil => exact ⟨[], .nil, rfl⟩
    | byte value own => cases whole
    | @escape character _ _ _ spelled own =>
      obtain ⟨first, _, encoding, -⟩ := exists_encoding character
      rw [encoding] at whole
      cases whole
  | cons character characters inductionHypothesis =>
    -- The first character is escaped, or it is spelled with its own bytes.
    have first_spelled {front rest : List StringUnit}
        (spelled : CharacterSpelling character front)
        (denotes : Denotes rest (characters.flatMap String.utf8EncodeChar)) :
        ∃ pieces, List.Forall₂ CharacterSpelling (character :: characters) pieces ∧
          front ++ rest = pieces.flatten := by
      obtain ⟨pieces, others_spelled, rfl⟩ := inductionHypothesis denotes
      exact ⟨front :: pieces, .cons spelled others_spelled, rfl⟩
    obtain ⟨first, others, encoding, -, later⟩ := exists_encoding character
    generalize whole : (character :: characters).flatMap String.utf8EncodeChar = all at denotes
    rw [List.flatMap_cons] at whole
    cases denotes with
    | nil =>
      rw [encoding] at whole
      cases whole
    | byte value own =>
      rw [encoding] at whole
      cases whole
      obtain ⟨rest, rfl, rest_denotes⟩ := own.split later
      have plain := CharacterSpelling.plain character
      rw [encoding] at plain
      exact first_spelled plain rest_denotes
    | escape spelled own =>
      obtain ⟨rfl, rfl⟩ := eq_of_encoding_append whole
      exact first_spelled spelled own

/-- Bytes that are read as a text are its encoding. -/
theorem eq_encoding_of_fromUTF8? {bytes : List UInt8} {text : String}
    (read : String.fromUTF8? ⟨bytes.toArray⟩ = some text) :
    bytes = text.toList.flatMap String.utf8EncodeChar := by
  rw [String.fromUTF8?] at read
  split_ifs at read with valid
  cases read
  have encoding := @String.utf8Encode_toList (String.fromUTF8 ⟨bytes.toArray⟩ valid)
  have data := congrArg ByteArray.data encoding
  rw [List.utf8Encode, List.data_toByteArray] at data
  exact (List.toArray_inj data).symm

/-- A string has a text exactly if its units spell that text. -/
theorem text?_eq_some_iff {units : List StringUnit} (spelled : SpellableUnits units)
    {text : String} : text? units = some text ↔ TextSpelling text units := by
  refine ⟨fun read => ?_, TextSpelling.read⟩
  obtain ⟨bytes, denoted, read⟩ := Option.bind_eq_some_iff.mp read
  obtain ⟨own, rfl, denotes⟩ := denotes_of_bytesFrom? spelled denoted
  rw [eq_encoding_of_fromUTF8? read] at denotes
  exact denotes.spelling

end Json

end Treescribe
