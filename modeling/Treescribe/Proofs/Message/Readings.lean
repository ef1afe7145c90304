import Treescribe.Proofs.Json.Characters
import Treescribe.Proofs.Json.Readings
import Treescribe.Proofs.Message.Texts

/-!
# What is decoded is a text of a message

Only the texts of a message are decoded to that message. A value is decoded from a part of a
text, so each of its tokens has a spelling; then the value can be traced back to its form:
a string to the text that it spells, an id to its digits, a record to its fields.
-/

namespace Treescribe

namespace Json

section Parts

/-- The tokens of a text have spellings. -/
theorem Text.spellable {json : Json} {bytes : List UInt8} (text : json.Text bytes) :
    json.Spellable := by
  have each {tokens : List Token} {bytes : List UInt8} (sequence : SequenceSpelling tokens bytes) :
      ∀ token ∈ tokens, ∃ bytes, TokenSpelling token bytes := by
    induction sequence with
    | nil _ => simp
    | cons _ spelled _ inductionHypothesis =>
      exact List.forall_mem_cons.mpr ⟨⟨_, spelled⟩, inductionHypothesis⟩
  exact each text

/-- The tokens of a part stand in the list with commas between. -/
theorem mem_intercalate {parts : List (List Token)} {part : List Token} (listed : part ∈ parts)
    {token : Token} (inside : token ∈ part) : token ∈ List.intercalate [.comma] parts := by
  cases parts with
  | nil => cases listed
  | cons first others =>
    rw [intercalate_comma_cons, List.mem_append, List.mem_flatMap]
    rcases List.mem_cons.mp listed with rfl | listed
    · exact .inl inside
    · exact .inr ⟨part, listed, List.mem_cons_of_mem _ inside⟩

/-- The items of an array with a text have texts. -/
theorem Spellable.item {items : List Json} (spellable : Spellable (.array items)) :
    ∀ item ∈ items, item.Spellable := by
  intro item listed token inside
  apply spellable
  rw [tokens, itemTokens_eq_map]
  have between := mem_intercalate (List.mem_map_of_mem listed) inside
  exact List.mem_cons_of_mem _ (List.mem_append_left _ between)

/-- The units of a string with a spelling have spellings. -/
theorem spellableUnits_of_string {units : List StringUnit}
    (spelled : ∃ bytes, TokenSpelling (.string units) bytes) : SpellableUnits units := by
  obtain ⟨_, spelled⟩ := spelled
  cases spelled with
  | string each =>
    intro unit listed
    obtain ⟨piece, -, spelled⟩ := exists_of_forall₂ each.flip listed
    exact ⟨piece, spelled⟩

/-- The members of an object with a text have names and values with texts. -/
theorem Spellable.member {members : List (List StringUnit × Json)}
    (spellable : Spellable (.object members)) :
    ∀ member ∈ members, SpellableUnits member.1 ∧ member.2.Spellable := by
  intro member listed
  have part : .string member.1 :: .colon :: member.2.tokens ∈ memberTokens members := by
    rw [memberTokens_eq_map]
    exact List.mem_map.mpr ⟨member, listed, rfl⟩
  have inside : ∀ token ∈ (.string member.1 :: .colon :: member.2.tokens : List Token),
      ∃ bytes, TokenSpelling token bytes := by
    intro token inside
    apply spellable
    rw [tokens]
    exact List.mem_cons_of_mem _ (List.mem_append_left _ (mem_intercalate part inside))
  obtain ⟨name, -, value⟩ : _ ∧ _ ∧ _ := by
    simpa only [List.forall_mem_cons] using inside
  exact ⟨spellableUnits_of_string name, value⟩

end Parts

section Ids

/-- A digit is rebuilt from its value. -/
theorem digitChar_of_isDigit : ∀ byte, isDigit byte →
    (byte - '0'.toUInt8).toNat < 10 ∧ byte = (byte - '0'.toUInt8).toNat.digitChar.toUInt8 :=
  byCode (by decide +kernel)

/-- One more digit behind a positive number. -/
theorem decimal_concat {number : Nat} (positive : 0 < number) {byte : UInt8}
    (digit : isDigit byte) :
    decimal number ++ [byte] = decimal (number * 10 + (byte - '0'.toUInt8).toNat) := by
  obtain ⟨bound, rebuilt⟩ := digitChar_of_isDigit byte digit
  generalize (byte - '0'.toUInt8).toNat = value at bound rebuilt ⊢
  have several : ¬ number * 10 + value < 10 := by omega
  have quotient : (number * 10 + value) / 10 = number := by omega
  have remainder : (number * 10 + value) % 10 = value := by omega
  rw [decimal, decimal, Nat.toDigits_eq_if (by decide) (n := number * 10 + value),
    if_neg several, quotient, remainder, List.map_append, rebuilt]
  rfl

/-- Digits that do not start with zero are the decimal digits of their number. -/
theorem eq_decimal_of_digits {first : UInt8} (nonzero : first ≠ '0'.toUInt8)
    (rest : List UInt8) (all : ∀ byte ∈ first :: rest, isDigit byte) :
    0 < digitsValue (first :: rest) ∧ first :: rest = decimal (digitsValue (first :: rest)) := by
  induction rest using List.reverseRecOn with
  | nil =>
    obtain ⟨bound, rebuilt⟩ := digitChar_of_isDigit first (all first (by simp))
    have value : digitsValue [first] = (first - '0'.toUInt8).toNat := by simp [digitsValue]
    rw [value]
    generalize (first - '0'.toUInt8).toNat = number at bound rebuilt ⊢
    subst rebuilt
    refine ⟨Nat.pos_of_ne_zero ?_, ?_⟩
    · rintro rfl
      exact nonzero rfl
    · rw [decimal, Nat.toDigits_of_lt_base bound]
      rfl
  | append_singleton front last inductionHypothesis =>
    rw [← List.cons_append, List.forall_mem_append, List.forall_mem_singleton] at all
    obtain ⟨positive, digits⟩ := inductionHypothesis all.1
    have value : digitsValue (first :: (front ++ [last])) =
        digitsValue (first :: front) * 10 + (last - '0'.toUInt8).toNat := by
      rw [← List.cons_append, digitsValue, List.foldl_append]
      rfl
    rw [value]
    refine ⟨by omega, ?_⟩
    rw [← decimal_concat positive all.2, ← digits]
    rfl

/-- A number of digits alone is the whole part of a number. -/
theorem NumberLiteral.wholePart {literal : List UInt8} (number : NumberLiteral literal)
    (all : ∀ byte ∈ literal, isDigit byte) : WholePart literal := by
  cases number with
  | @parts sign whole fraction exponent signed whole_part fraction_part exponent_part =>
    rw [List.forall_mem_append, List.forall_mem_append] at all
    obtain ⟨digit_sign, -, digits_behind⟩ := all
    have no_sign : sign = [] := by
      simp only [List.mem_cons, List.not_mem_nil, or_false] at signed
      refine signed.resolve_right ?_
      rintro rfl
      exact absurd (digit_sign _ List.mem_cons_self) (by decide)
    have nothing_behind : fraction ++ exponent = [] := by
      have no_digit := (fraction_part.accepted exponent_part).2
      cases behind : fraction ++ exponent with
      | nil => rfl
      | cons byte rest =>
        rw [behind] at no_digit digits_behind
        exact absurd (digits_behind byte List.mem_cons_self) (no_digit byte rfl)
    rw [no_sign, nothing_behind, List.nil_append, List.append_nil]
    exact whole_part

/-- A number of digits alone is spelled with the decimal digits of its value. -/
theorem NumberLiteral.eq_decimal {literal : List UInt8} (number : NumberLiteral literal)
    (all : ∀ byte ∈ literal, isDigit byte) : literal = decimal (digitsValue literal) := by
  cases number.wholePart all with
  | zero => rfl
  | digits nonzero digits => exact (eq_decimal_of_digits nonzero _ digits.2).2

end Ids

/-- A decoder takes only JSON values that stand for the value that it gives, among those with
a text. -/
def TakesOnly {α : Type} (decode? : Json → Option α) (form : Form α) : Prop :=
  ∀ value json, json.Spellable → decode? json = some value → form value json

/-- Only the spellings of a text are decoded to it. -/
theorem takesOnly_text : TakesOnly string? textForm := by
  intro text json spellable read
  cases json with
  | string units =>
    have spelled := spellableUnits_of_string (spellable _ List.mem_cons_self)
    exact ⟨units, rfl, (text?_eq_some_iff spelled).mp read⟩
  | _ => cases read

/-- Only truth values are decoded as such. -/
theorem takesOnly_bool : TakesOnly bool? boolForm := by
  intro value json spellable read
  cases json with
  | bool other =>
    cases read
    rfl
  | _ => cases read

/-- Only the decimal digits of an id are decoded to it. -/
theorem takesOnly_id : TakesOnly id? idForm := by
  intro id json spellable read
  cases json with
  | number literal =>
    obtain ⟨accepted, same⟩ := Option.ite_none_right_eq_some.mp read
    rw [Bool.and_eq_true, List.all_eq_true, decide_eq_true_iff] at accepted
    obtain ⟨digits, bound⟩ := accepted
    obtain ⟨_, spelled⟩ := spellable _ List.mem_cons_self
    cases spelled with
    | number wellFormed =>
      cases same
      rw [idForm, UInt64.toNat_ofNat_of_lt' bound, ← wellFormed.eq_decimal digits]
  | _ => cases read

/-- Where a list is decoded, each of its elements is. -/
theorem forall₂_of_mapM {α β : Type} {decode? : α → Option β} {items : List α} {values : List β}
    (read : items.mapM decode? = some values) :
    List.Forall₂ (fun value item => decode? item = some value) values items := by
  induction items generalizing values with
  | nil =>
    cases read
    exact .nil
  | cons item items inductionHypothesis =>
    rw [List.mapM_cons] at read
    obtain ⟨value, here, read⟩ := Option.bind_eq_some_iff.mp read
    obtain ⟨others, later, read⟩ := Option.bind_eq_some_iff.mp read
    cases read
    exact .cons here (inductionHypothesis later)

/-- A list is decoded only from the items of an array. -/
theorem TakesOnly.list {α : Type} {decode? : Json → Option α} {form : Form α}
    (takes : TakesOnly decode? form) : TakesOnly (list? decode?) (listForm form) := by
  intro values json spellable read
  cases json with
  | array items =>
    have each := (List.forall₂_and_left _ _).mpr ⟨spellable.item, (forall₂_of_mapM read).flip⟩
    exact ⟨items, rfl, (each.imp fun item value read => takes value item read.1 read.2).flip⟩
  | _ => cases read

/-- An optional value is decoded from the value, or from `null` for none. -/
theorem TakesOnly.optional {α : Type} {decode? : Json → Option α} {form : Form α}
    (takes : TakesOnly decode? form) : TakesOnly (optional? decode?) (optionalForm form) := by
  intro value json spellable read
  cases json with
  | null =>
    cases read
    rfl
  | _ =>
    obtain ⟨inner, inner_read, rfl⟩ := Option.map_eq_some_iff.mp read
    exact takes inner _ spellable inner_read

/-- What is known under distinct names is found under them. -/
theorem lookup_of_mem {known : List (String × Json)} (distinct : (known.map Prod.fst).Nodup)
    {name : String} {value : Json} (member : (name, value) ∈ known) :
    known.lookup name = some value := by
  cases found : known.lookup name with
  | none => exact absurd (List.mem_map_of_mem member) (not_mem_of_lookup found)
  | some other =>
    have same := List.inj_on_of_nodup_map distinct (mem_of_lookup found) member rfl
    cases same
    rfl

/-- A name that does not occur is not found. -/
theorem lookup_of_not_mem {known : List (String × Json)} {name : String}
    (absent : name ∉ known.map Prod.fst) : known.lookup name = none := by
  cases found : known.lookup name with
  | none => rfl
  | some value => exact absurd (List.mem_map_of_mem (mem_of_lookup found)) absent

/-- The items of an array stand for the first fields, and the others may be left out. -/
theorem recordForm_of_items {fields : List Field} {items : List Json}
    (distinct : (fields.map Field.name).Nodup) (fits : items.length ≤ fields.length)
    (found : ∀ field ∈ fields, field.FoundIn ((fields.map Field.name).zip items)) :
    RecordForm fields (.array items) := by
  obtain ⟨given, omitted, rfl, lengths⟩ : ∃ given omitted, fields = given ++ omitted ∧
      given.length = items.length :=
    ⟨_, _, (List.take_append_drop items.length fields).symm, List.length_take_of_le fits⟩
  rw [zip_names lengths] at found
  rw [List.map_append] at distinct
  have names : ((given.map Field.name).zip items).map Prod.fst = given.map Field.name :=
    List.map_fst_zip (by rw [List.length_map, lengths])
  refine .array rfl (List.forall₂_iff_zip.mpr ⟨lengths, ?_⟩) ?_
  · intro field item paired
    have inside := List.mem_append_left omitted (List.of_mem_zip paired).1
    refine (found field inside).form item (lookup_of_mem ?_ ?_)
    · rw [names]
      exact distinct.of_append_left
    · rw [List.zip_map_left]
      exact List.mem_map_of_mem paired
  · intro field member
    refine (found field (List.mem_append_right given member)).omittable (lookup_of_not_mem ?_)
    rw [names]
    intro inside
    exact List.disjoint_of_nodup_append distinct inside (List.mem_map_of_mem member)

/-- The members of an object stand for the fields that they name, and the others may be left
out. -/
theorem recordForm_of_members {fields : List Field} {named : List (String × Json)}
    {members : List (List StringUnit × Json)}
    (names : List.Forall₂ (fun entry member => TextSpelling entry.1 member.1 ∧
      entry.2 = member.2) named members)
    (distinct : ((named.filter fun entry =>
      (fields.map Field.name).contains entry.1).map Prod.fst).Nodup)
    (found : ∀ field ∈ fields, field.FoundIn
      (named.filter fun entry => (fields.map Field.name).contains entry.1)) :
    RecordForm fields (.object members) := by
  have known {field : Field} (inside : field ∈ fields) :
      (fields.map Field.name).contains field.name :=
    List.contains_iff_mem.mpr (List.mem_map_of_mem inside)
  refine .object names ?_ ?_ ?_
  · intro field inside
    have kept : (named.filter fun entry => (fields.map Field.name).contains entry.1).map Prod.fst =
        (named.map Prod.fst).filter fun name => (fields.map Field.name).contains name := by
      rw [List.filter_map]
      rfl
    have once := List.nodup_iff_count_le_one.mp distinct field.name
    rwa [kept, List.count_filter (known inside)] at once
  · intro field inside value member
    refine (found field inside).form value (lookup_of_mem distinct ?_)
    exact List.mem_filter.mpr ⟨member, known inside⟩
  · intro field inside absent
    refine (found field inside).omittable (lookup_of_not_mem fun member => absent ?_)
    exact (List.filter_sublist.map Prod.fst).subset member

/-- The known fields of a record: the items of an array in their order, or the members of an
object with known names, of which no two are the same. -/
theorem fields?_cases {names : List String} {json : Json} {known : List (String × Json)}
    (read : json.fields? names = some known) :
    (∃ items, json = .array items ∧ items.length ≤ names.length ∧ known = names.zip items) ∨
      ∃ members named, json = .object members ∧
        List.Forall₂ (fun entry member => text? member.1 = some entry.1 ∧ entry.2 = member.2)
          named members ∧
        known = named.filter (fun entry => names.contains entry.1) ∧
        (known.map Prod.fst).Nodup := by
  cases json with
  | array items =>
    obtain ⟨fits, same⟩ := Option.ite_none_right_eq_some.mp read
    exact .inl ⟨items, rfl, fits, (Option.some.inj same).symm⟩
  | object members =>
    obtain ⟨named, named_read, read⟩ := Option.bind_eq_some_iff.mp read
    obtain ⟨once, same⟩ := Option.ite_none_right_eq_some.mp read
    cases same
    refine .inr ⟨members, named, rfl, (forall₂_of_mapM named_read).imp ?_, rfl, once⟩
    intro entry member read
    obtain ⟨name, name_read, rfl⟩ := Option.map_eq_some_iff.mp read
    exact ⟨name_read, rfl⟩
  | _ => cases read

/-- A record whose fields are found stands for them. -/
theorem recordForm_of_found {fields : List Field} {names : List String} {json : Json}
    {known : List (String × Json)} (distinct : names.Nodup) (spellable : json.Spellable)
    (read : json.fields? names = some known) (named : fields.map Field.name = names)
    (found : ∀ field ∈ fields, field.FoundIn known) : RecordForm fields json := by
  subst named
  rcases fields?_cases read with ⟨items, rfl, fits, rfl⟩ | ⟨members, named, rfl, each, rfl, once⟩
  · rw [List.length_map] at fits
    exact recordForm_of_items distinct fits found
  · refine recordForm_of_members ?_ once found
    have spelled := (List.forall₂_and_left _ _).mpr ⟨spellable.member, each.flip⟩
    refine (spelled.imp fun member entry read => ?_).flip
    exact ⟨(text?_eq_some_iff read.1.1).mp read.2.1, read.2.2⟩

/-- The known fields of a record with a text have texts. -/
theorem spellable_of_fields? {names : List String} {json : Json} {known : List (String × Json)}
    (spellable : json.Spellable) (read : json.fields? names = some known) :
    ∀ entry ∈ known, entry.2.Spellable := by
  intro entry listed
  rcases fields?_cases read with ⟨items, rfl, -, rfl⟩ | ⟨members, named, rfl, each, rfl, -⟩
  · exact spellable.item _ (List.of_mem_zip listed).2
  · obtain ⟨member, inside, -, same⟩ :=
      exists_of_forall₂ each.flip (List.mem_filter.mp listed).1
    exact same ▸ (spellable.member member inside).2

section Fields

variable {α : Type} {known : List (String × Json)} {name : String} {form : Form α} {value : α}
  {decode? : Json → Option α}

/-- A required field that is decoded was found. -/
theorem Field.foundIn_required (takes : TakesOnly decode? form)
    (spellable : ∀ entry ∈ known, entry.2.Spellable)
    (read : required? known name decode? = some value) :
    FoundIn known (.required name form value) := by
  obtain ⟨json, found, decoded⟩ := Option.bind_eq_some_iff.mp read
  constructor
  · intro other found_other
    have same : json = other := Option.some.inj (found.symm.trans found_other)
    exact same ▸ takes value json (spellable _ (mem_of_lookup found)) decoded
  · intro missing
    rw [Field.required, found] at missing
    cases missing

/-- A field with a default that is decoded was found, or has its default. -/
theorem Field.foundIn_defaulted {default : α} (takes : TakesOnly decode? form)
    (spellable : ∀ entry ∈ known, entry.2.Spellable)
    (read : field? known name default decode? = some value) :
    FoundIn known (.defaulted name form default value) := by
  rw [field?] at read
  constructor
  · intro json found
    rw [Field.defaulted] at found
    rw [found] at read
    exact takes value json (spellable _ (mem_of_lookup found)) read
  · intro missing
    rw [Field.defaulted] at missing
    rw [missing] at read
    exact (Option.some.inj read).symm

end Fields

/-- Texts that may be missing are decoded from strings or `null`. -/
theorem takesOnly_optional_text : TakesOnly (optional? string?) (optionalForm textForm) :=
  takesOnly_text.optional

end Json

/-- Only what stands for a parameter is decoded to it. -/
theorem Parameter.takesOnly_form : Json.TakesOnly ofJson? form := by
  intro parameter json spellable read
  simp only [ofJson?, Option.bind_eq_bind, Option.bind_eq_some_iff, Option.pure_def,
    Option.some.injEq] at read
  obtain ⟨known, known_read, name, name_read, type, type_read, default, default_read, rfl⟩ := read
  have parts := Json.spellable_of_fields? spellable known_read
  refine Json.recordForm_of_found (by decide) spellable known_read rfl ?_
  simp only [fields, List.forall_mem_cons]
  exact ⟨Json.Field.foundIn_required Json.takesOnly_text parts name_read,
    Json.Field.foundIn_defaulted Json.takesOnly_optional_text parts type_read,
    Json.Field.foundIn_defaulted Json.takesOnly_optional_text parts default_read, by simp⟩

/-- Only what stands for a segment is decoded to it. -/
theorem Segment.takesOnly_form : Json.TakesOnly ofJson? form := by
  intro segment json spellable read
  simp only [ofJson?, Option.bind_eq_bind, Option.bind_eq_some_iff, Option.pure_def,
    Option.some.injEq] at read
  obtain ⟨known, known_read, name, name_read, arguments, arguments_read, rfl⟩ := read
  have parts := Json.spellable_of_fields? spellable known_read
  refine Json.recordForm_of_found (by decide) spellable known_read rfl ?_
  simp only [fields, List.forall_mem_cons]
  exact ⟨Json.Field.foundIn_required Json.takesOnly_text parts name_read,
    Json.Field.foundIn_defaulted Json.takesOnly_text.list.optional parts arguments_read, by simp⟩

/-- Only what stands for a row is decoded to it. -/
theorem Row.takesOnly_form : Json.TakesOnly ofJson? form := by
  intro row json spellable read
  simp only [ofJson?, Option.bind_eq_bind, Option.bind_eq_some_iff, Option.pure_def,
    Option.some.injEq] at read
  obtain ⟨known, known_read, id, id_read, parent, parent_read, kind, kind_read, names, names_read,
    type, type_read, value, value_read, values, values_read, text, text_read, newline,
    newline_read, parameters, parameters_read, segments, segments_read, rfl⟩ := read
  have parts := Json.spellable_of_fields? spellable known_read
  refine Json.recordForm_of_found (by decide) spellable known_read rfl ?_
  simp only [fields, List.forall_mem_cons]
  exact ⟨Json.Field.foundIn_required Json.takesOnly_id parts id_read,
    Json.Field.foundIn_defaulted Json.takesOnly_id parts parent_read,
    Json.Field.foundIn_required Json.takesOnly_text parts kind_read,
    Json.Field.foundIn_defaulted Json.takesOnly_text.list parts names_read,
    Json.Field.foundIn_defaulted Json.takesOnly_optional_text parts type_read,
    Json.Field.foundIn_defaulted Json.takesOnly_optional_text parts value_read,
    Json.Field.foundIn_defaulted Json.takesOnly_text.list parts values_read,
    Json.Field.foundIn_defaulted Json.takesOnly_optional_text parts text_read,
    Json.Field.foundIn_defaulted Json.takesOnly_bool parts newline_read,
    Json.Field.foundIn_defaulted Parameter.takesOnly_form.list parts parameters_read,
    Json.Field.foundIn_defaulted Segment.takesOnly_form.list parts segments_read, by simp⟩

/-- Only what stands for a message is decoded to it. -/
theorem Message.takesOnly_form : Json.TakesOnly ofJson? form := by
  intro message json spellable read
  simp only [ofJson?, Option.bind_eq_bind, Option.bind_eq_some_iff, Option.pure_def,
    Option.some.injEq] at read
  obtain ⟨known, known_read, rows, rows_read, rfl⟩ := read
  have parts := Json.spellable_of_fields? spellable known_read
  refine Json.recordForm_of_found (by decide) spellable known_read rfl ?_
  rw [fields, List.forall_mem_singleton]
  exact Json.Field.foundIn_required Row.takesOnly_form.list parts rows_read

/-- A text is decoded to a message exactly if it is a text of that message. -/
theorem Message.decode?_eq_some_iff {bytes : List UInt8} {message : Message} :
    decode? bytes = some message ↔ message.Text bytes := by
  rw [decode?, Option.bind_eq_some_iff]
  constructor
  · rintro ⟨json, parsed, read⟩
    have text := Json.parse?_eq_some_iff.mp parsed
    exact ⟨json, takesOnly_form message json text.spellable read, text⟩
  · rintro ⟨json, stands, text⟩
    exact ⟨json, text.parsed, decodes_form message json stands⟩

end Treescribe
