import Treescribe.Proofs.Json.Parsing
import Treescribe.Proofs.Message.Forms
import Treescribe.Proofs.Outcome

/-!
# The texts of messages

A message is sent as a text of a JSON value that stands for it. Every message has such a
text, and every such text decodes to the message.
-/

namespace Treescribe

namespace Json

/-- A value with a text: each of its tokens has a spelling. -/
def Spellable (json : Json) : Prop :=
  ∀ token ∈ json.tokens, ∃ bytes, TokenSpelling token bytes

/-- Where each element has a partner, the lists of both are partners. -/
theorem exists_forall₂ {α β : Type} {relation : α → β → Prop} {values : List α}
    (each : ∀ value ∈ values, ∃ partner, relation value partner) :
    ∃ partners, List.Forall₂ relation values partners := by
  induction values with
  | nil => exact ⟨[], .nil⟩
  | cons value rest inductionHypothesis =>
    obtain ⟨here, later⟩ := List.forall_mem_cons.mp each
    obtain ⟨partner, related⟩ := here
    obtain ⟨partners, all_related⟩ := inductionHypothesis later
    exact ⟨partner :: partners, .cons related all_related⟩

/-- Tokens that have spellings have one together. -/
theorem exists_sequenceSpelling {tokens : List Token}
    (each : ∀ token ∈ tokens, ∃ bytes, TokenSpelling token bytes) :
    ∃ bytes, SequenceSpelling tokens bytes := by
  induction tokens with
  | nil => exact ⟨[], .nil (List.nil_subset _)⟩
  | cons token rest inductionHypothesis =>
    obtain ⟨⟨bytes, spelled⟩, later⟩ := List.forall_mem_cons.mp each
    obtain ⟨others, sequence⟩ := inductionHypothesis later
    exact ⟨_, .next spelled sequence⟩

/-- The tokens of a list with commas between are commas and those of its parts. -/
theorem mem_of_mem_intercalate {parts : List (List Token)} {token : Token}
    (member : token ∈ List.intercalate [.comma] parts) :
    token = .comma ∨ ∃ part ∈ parts, token ∈ part := by
  cases parts with
  | nil => cases member
  | cons first others =>
    rw [intercalate_comma_cons, List.mem_append, List.mem_flatMap] at member
    rcases member with inside | ⟨part, listed, inside⟩
    · exact .inr ⟨first, List.mem_cons_self, inside⟩
    · rcases List.mem_cons.mp inside with comma | inside
      · exact .inl comma
      · exact .inr ⟨part, List.mem_cons_of_mem _ listed, inside⟩

/-- An array of values with texts has a text. -/
theorem spellable_array {items : List Json} (each : ∀ item ∈ items, item.Spellable) :
    Spellable (.array items) := by
  intro token member
  rw [tokens, itemTokens_eq_map, List.mem_cons, List.mem_append, List.mem_singleton] at member
  rcases member with rfl | inside | rfl
  · exact ⟨_, .openArray⟩
  · rcases mem_of_mem_intercalate inside with rfl | ⟨part, listed, inside⟩
    · exact ⟨_, .comma⟩
    · obtain ⟨item, contained, rfl⟩ := List.mem_map.mp listed
      exact each item contained token inside
  · exact ⟨_, .closeArray⟩

/-- A form in which every value can be written. -/
def Expressible {α : Type} (form : Form α) : Prop :=
  ∀ value, ∃ json, form value json ∧ json.Spellable

/-- Every code unit has a spelling. -/
theorem exists_codeSpelling {code : Nat} (bound : code < 0x10000) :
    ∃ bytes, UnitSpelling (.code code) bytes := by
  have digit {value : Nat} (bound : value < 16) : HexDigit value.digitChar.toUInt8 value :=
    ⟨bound, .inl rfl⟩
  have split : code = ((code / 4096 * 16 + code / 256 % 16) * 16 + code / 16 % 16) * 16 +
      code % 16 := by omega
  rw [split]
  exact ⟨_, .code (digit (by omega)) (digit (by omega)) (digit (by omega)) (digit (by omega))⟩

/-- Every character can be escaped. -/
theorem exists_characterSpelling (character : Char) :
    ∃ units, CharacterSpelling character units ∧
      ∀ unit ∈ units, ∃ bytes, UnitSpelling unit bytes := by
  by_cases basic : character.toNat < 0x10000
  · refine ⟨_, .code basic, ?_⟩
    rw [List.forall_mem_singleton]
    exact exists_codeSpelling basic
  · have valid : character.toNat < 0x110000 := by
      rcases character.valid with low | high
      · exact Nat.lt_trans low (by decide)
      · exact high.2
    have point : character.toNat = 0x10000 + (character.toNat - 0x10000) / 0x400 * 0x400 +
        (character.toNat - 0x10000) % 0x400 := by omega
    refine ⟨_, .pair (by omega) (by omega) point, ?_⟩
    rw [List.forall_mem_cons, List.forall_mem_singleton]
    exact ⟨exists_codeSpelling (by omega), exists_codeSpelling (by omega)⟩

/-- Every text can be written as a string. -/
theorem expressible_text : Expressible textForm := by
  intro text
  choose spell spelled spellable using exists_characterSpelling
  refine ⟨.string (text.toList.map spell).flatten, ⟨_, rfl, text.toList.map spell, ?_, rfl⟩, ?_⟩
  · rw [List.forall₂_map_right_iff, List.forall₂_same]
    exact fun character _ => spelled character
  · rw [Spellable, tokens, List.forall_mem_singleton]
    have each : ∀ unit ∈ (text.toList.map spell).flatten, ∃ bytes, UnitSpelling unit bytes := by
      intro unit member
      obtain ⟨units, listed, inside⟩ := List.mem_flatten.mp member
      obtain ⟨character, -, rfl⟩ := List.mem_map.mp listed
      exact spellable character unit inside
    obtain ⟨pieces, units_spelled⟩ := exists_forall₂ each
    exact ⟨_, .string units_spelled⟩

/-- The first decimal digit of a positive number is not zero. -/
theorem head_decimal {number : Nat} (positive : 0 < number) :
    ∃ first rest, decimal number = first :: rest ∧ first ≠ '0'.toUInt8 := by
  induction number using Nat.strongRecOn with
  | ind number inductionHypothesis =>
    rw [decimal, Nat.toDigits_eq_if (by decide)]
    by_cases single : number < 10
    · have nonzero : ∀ digit < 10, 0 < digit → digit.digitChar.toUInt8 ≠ '0'.toUInt8 := by
        decide
      rw [if_pos single]
      exact ⟨_, [], rfl, nonzero number single positive⟩
    · obtain ⟨first, rest, digits, nonzero⟩ :=
        inductionHypothesis (number / 10) (by omega) (by omega)
      rw [if_neg single, List.map_append, ← decimal, digits]
      exact ⟨first, _, rfl, nonzero⟩

/-- The decimal digits of a number are a number literal. -/
theorem numberLiteral_decimal (number : Nat) : NumberLiteral (decimal number) := by
  have whole : WholePart (decimal number) := by
    rcases Nat.eq_zero_or_pos number with rfl | positive
    · exact .zero
    · have all_digits : ∀ byte ∈ decimal number, isDigit byte := isDigit_of_mem_decimal
      obtain ⟨first, rest, digits, nonzero⟩ := head_decimal positive
      rw [digits] at all_digits ⊢
      exact .digits nonzero ⟨List.cons_ne_nil _ _, all_digits⟩
  have literal := NumberLiteral.parts (List.mem_cons_self : [] ∈ [[], ['-'.toUInt8]]) whole
    .absent .absent
  rwa [List.append_nil, List.append_nil] at literal

/-- Every id can be written as a number. -/
theorem expressible_id : Expressible idForm := by
  intro id
  refine ⟨_, rfl, ?_⟩
  rw [Spellable, tokens, List.forall_mem_singleton]
  exact ⟨_, .number (numberLiteral_decimal id.toNat)⟩

/-- Every truth value can be written. -/
theorem expressible_bool : Expressible boolForm := by
  intro value
  refine ⟨_, rfl, ?_⟩
  rw [Spellable, tokens, List.forall_mem_singleton]
  exact ⟨_, .bool value⟩

/-- Every list can be written where its elements can. -/
theorem Expressible.list {α : Type} {form : Form α} (expressible : Expressible form) :
    Expressible (listForm form) := by
  intro values
  choose json forms spellable using expressible
  refine ⟨.array (values.map json), ⟨_, rfl, ?_⟩, spellable_array ?_⟩
  · rw [List.forall₂_map_right_iff, List.forall₂_same]
    exact fun value _ => forms value
  · rw [List.forall_mem_map]
    exact fun value _ => spellable value

/-- Every optional value can be written where the values can. -/
theorem Expressible.optional {α : Type} {form : Form α} (expressible : Expressible form) :
    Expressible (optionalForm form) := by
  intro value
  cases value with
  | none =>
    refine ⟨.null, rfl, ?_⟩
    rw [Spellable, tokens, List.forall_mem_singleton]
    exact ⟨_, .null⟩
  | some value => exact expressible value

/-- Every record can be written where its fields can. -/
theorem expressible_record {fields : List Field}
    (each : ∀ field ∈ fields, ∃ json, field.Fits json ∧ json.Spellable) :
    ∃ json, RecordForm fields json ∧ json.Spellable := by
  obtain ⟨items, given⟩ := exists_forall₂ each
  refine ⟨.array items, .array (List.append_nil _).symm (given.imp fun _ _ => And.left) ?_, ?_⟩
  · simp
  · refine spellable_array fun item member => ?_
    obtain ⟨field, -, -, spellable⟩ := exists_of_forall₂ given member
    exact spellable

end Json

/-- Every parameter can be written. -/
theorem Parameter.expressible_form : Json.Expressible form := by
  intro parameter
  apply Json.expressible_record
  simp only [fields, List.forall_mem_cons]
  exact ⟨Json.expressible_text _, Json.expressible_text.optional _,
    Json.expressible_text.optional _, by simp⟩

/-- Every segment can be written. -/
theorem Segment.expressible_form : Json.Expressible form := by
  intro segment
  apply Json.expressible_record
  simp only [fields, List.forall_mem_cons]
  exact ⟨Json.expressible_text _, Json.expressible_text.list.optional _, by simp⟩

/-- Every row can be written. -/
theorem Row.expressible_form : Json.Expressible form := by
  intro row
  apply Json.expressible_record
  simp only [fields, List.forall_mem_cons]
  exact ⟨Json.expressible_id _, Json.expressible_id _, Json.expressible_text _,
    Json.expressible_text.list _, Json.expressible_text.optional _,
    Json.expressible_text.optional _, Json.expressible_text.list _,
    Json.expressible_text.optional _, Json.expressible_bool _,
    Parameter.expressible_form.list _, Segment.expressible_form.list _, by simp⟩

namespace Message

/-- The texts of a message: those of the JSON values that stand for it. -/
def Text (message : Message) (bytes : List UInt8) : Prop :=
  ∃ json, form message json ∧ json.Text bytes

/-- Every message has a text. -/
theorem exists_text (message : Message) : ∃ bytes, message.Text bytes := by
  have each : ∀ field ∈ message.fields, ∃ json, field.Fits json ∧ json.Spellable := by
    rw [fields, List.forall_mem_singleton]
    exact Row.expressible_form.list message.rows
  obtain ⟨json, stands, spellable⟩ := Json.expressible_record each
  obtain ⟨bytes, text⟩ := Json.exists_sequenceSpelling spellable
  exact ⟨bytes, json, stands, text⟩

/-- Every message has a text, and every text of it decodes to exactly that message. -/
theorem texts_decode (message : Message) :
    (∃ bytes, message.Text bytes) ∧
      ∀ bytes, message.Text bytes → decode? bytes = some message := by
  refine ⟨message.exists_text, ?_⟩
  rintro bytes ⟨json, stands, text⟩
  rw [decode?, text.parsed, Option.bind_some]
  exact decodes_form message json stands

/-- Two rows, one of a kind beyond the basic plane and one with the largest id. -/
def twoRows : Message :=
  ⟨[{ id := 7, kind := "😀" }, { id := 18446744073709551615, kind := "/" }]⟩

/-- The first row as an array without its last fields. -/
def firstRow : Json :=
  .array [.number (Json.decimal 7), .number (Json.decimal 0), .string [.code 0xD83D, .code 0xDE00]]

/-- The second row as an object, with its fields in another order. -/
def secondRow : Json :=
  .plainObject [("kind", .string [.short '/'.toUInt8]), ("type", .null),
    ("id", .number (Json.decimal 18446744073709551615))]

/-- The two rows, behind a member that is none of the fields. -/
def twoRowsJson : Json :=
  .plainObject [("x", .number ("-1.5E+3".toList.map Char.toUInt8)),
    ("nodes", .array [firstRow, secondRow])]

/-- A text of the two rows. -/
def twoRowsText : String :=
  "\x7b\"x\":-1.5E+3,\"nodes\" : [[7,0,\"\\uD83d\\uDE00\"],\n" ++
    "\x7b\"kind\":\"\\/\",\"type\":null,\"id\":18446744073709551615\x7d]\x7d"

/-- The JSON value stands for the two rows. -/
theorem form_twoRows : form twoRows twoRowsJson := by
  have first : Row.form { id := 7, kind := "😀" } firstRow := by
    refine .array (rfl : _ = [_, _, _] ++ _) (.cons rfl (.cons rfl (.cons ?_ .nil))) ?_
    · refine ⟨_, rfl, [[.code 0xD83D, .code 0xDE00]], .cons ?_ .nil, rfl⟩
      exact .pair (by decide : 0x3D < 0x400) (by decide : 0x200 < 0x400) (by decide)
    · simp [Json.Field.defaulted]
  have second : Row.form { id := 18446744073709551615, kind := "/" } secondRow := by
    have slash : Json.TextSpelling "/" [.short '/'.toUInt8] :=
      ⟨[[.short '/'.toUInt8]], .cons (.short (by decide : ('/'.toUInt8, '/'.toUInt8) ∈ _)) .nil,
        rfl⟩
    apply Json.recordForm_plainObject
    · simp [Row.fields, Json.Field.required, Json.Field.defaulted]
    · simp [Row.fields, Json.Field.required, Json.Field.defaulted, Json.textForm,
        Json.optionalForm, Json.idForm, slash]
    · simp [Row.fields, Json.Field.required, Json.Field.defaulted]
  apply Json.recordForm_plainObject
  · simp [fields, Json.Field.required]
  · simp only [fields, Json.Field.required, List.forall_mem_singleton]
    intro value member
    have same : value = .array [firstRow, secondRow] := by simpa using member
    exact ⟨_, same, .cons first (.cons second .nil)⟩
  · simp [fields, Json.Field.required]

/-- The text spells the JSON value. -/
theorem text_twoRows : twoRowsJson.Text twoRowsText.toUTF8.toList := by
  have amount : Json.NumberLiteral ("-1.5E+3".toList.map Char.toUInt8) :=
    .parts (by decide : ['-'.toUInt8] ∈ _)
      (.digits (by decide) (by decide : Json.Digits ['1'.toUInt8]))
      (.digits (by decide : Json.Digits ['5'.toUInt8]))
      (.digits (by decide : 'E'.toUInt8 ∈ _) (by decide : ['+'.toUInt8] ∈ _)
        (by decide : Json.Digits ['3'.toUInt8]))
  have first_half : Json.UnitSpelling (.code 0xD83D) _ :=
    .code (by decide : Json.HexDigit 'D'.toUInt8 13) (by decide : Json.HexDigit '8'.toUInt8 8)
      (by decide : Json.HexDigit '3'.toUInt8 3) (by decide : Json.HexDigit 'd'.toUInt8 13)
  have second_half : Json.UnitSpelling (.code 0xDE00) _ :=
    .code (by decide : Json.HexDigit 'D'.toUInt8 13) (by decide : Json.HexDigit 'E'.toUInt8 14)
      (by decide : Json.HexDigit '0'.toUInt8 0) (by decide : Json.HexDigit '0'.toUInt8 0)
  have slash : Json.UnitSpelling (.short '/'.toUInt8) _ :=
    .short (by decide : ('/'.toUInt8, '/'.toUInt8) ∈ _)
  have blank : [' '.toUInt8] ⊆ Json.whiteSpace := by decide
  have line_feed : ['\n'.toUInt8] ⊆ Json.whiteSpace := by decide
  have spelled : Json.SequenceSpelling twoRowsJson.tokens _ :=
    .next .openObject <| .next (Json.tokenSpelling_plain (by decide)) <| .next .colon <|
    .next (.number amount) <| .next .comma <|
    .next (Json.tokenSpelling_plain (by decide)) <| .cons blank .colon <|
    .cons blank .openArray <|
    .next .openArray <| .next (.number (Json.numberLiteral_decimal _)) <| .next .comma <|
    .next (.number (Json.numberLiteral_decimal _)) <| .next .comma <|
    .next (.string (.cons first_half (.cons second_half .nil))) <| .next .closeArray <|
    .next .comma <| .cons line_feed .openObject <|
    .next (Json.tokenSpelling_plain (by decide)) <| .next .colon <|
    .next (.string (.cons slash .nil)) <| .next .comma <|
    .next (Json.tokenSpelling_plain (by decide)) <| .next .colon <| .next .null <|
    .next .comma <|
    .next (Json.tokenSpelling_plain (by decide)) <| .next .colon <|
    .next (.number (Json.numberLiteral_decimal _)) <| .next .closeObject <|
    .next .closeArray <| .next .closeObject <| .nil (List.nil_subset _)
  refine cast (congrArg (Json.SequenceSpelling _) ?_) spelled
  decide +kernel

/-- The text decodes to the two rows. -/
theorem texts_decode_twoRows :
    twoRows.Text twoRowsText.toUTF8.toList ∧
      decode? twoRowsText.toUTF8.toList = some twoRows := by
  have text : twoRows.Text twoRowsText.toUTF8.toList := ⟨twoRowsJson, form_twoRows, text_twoRows⟩
  exact ⟨text, (texts_decode twoRows).2 _ text⟩

end Message

end Treescribe
