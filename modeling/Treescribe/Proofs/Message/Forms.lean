import Mathlib.Data.List.Forall2
import Mathlib.Data.List.Nodup
import Treescribe.Message.Decode
import Treescribe.Proofs.Json.Parsing
import Treescribe.Proofs.Json.Strings

/-!
# The forms of messages

What a JSON value may look like to stand for a message. A record is an object of its
fields, in any order and with any other members between, or an array of its fields in
their order. A field may be left out where it has its default, in an array only together
with all fields behind it. Whatever its form, a value is decoded.
-/

namespace Treescribe

namespace Json

/-- The JSON values that stand for a value. -/
abbrev Form (α : Type) : Type := α → Json → Prop

/-- A string with the text. -/
def textForm : Form String := fun text json =>
  ∃ units, json = .string units ∧ TextSpelling text units

/-- The decimal digits of a number, without leading zeros. -/
def decimal (number : Nat) : List UInt8 :=
  (Nat.toDigits 10 number).map Char.toUInt8

/-- The decimal digits of an id. -/
def idForm : Form UInt64 := fun id json => json = .number (decimal id.toNat)

/-- A truth value. -/
def boolForm : Form Bool := fun value json => json = .bool value

/-- An array with an item for each element. -/
def listForm {α : Type} (form : Form α) : Form (List α) := fun values json =>
  ∃ items, json = .array items ∧ List.Forall₂ form values items

/-- The value itself, or `null` for none. -/
def optionalForm {α : Type} (form : Form α) : Form (Option α)
  | none, json => json = .null
  | some value, json => form value json

/-- A field of a record: its name, the JSON values that may be given for it, and whether
it may be left out. -/
structure Field where
  name : String
  Fits : Json → Prop
  Omittable : Prop

/-- A field that has to be present. -/
def Field.required {α : Type} (name : String) (form : Form α) (value : α) : Field :=
  ⟨name, form value, False⟩

/-- A field that may be left out where it has its default. -/
def Field.defaulted {α : Type} (name : String) (form : Form α) (default value : α) : Field :=
  ⟨name, form value, value = default⟩

/-- The JSON values that stand for a record with these fields. -/
inductive RecordForm (fields : List Field) : Json → Prop where
  /-- The fields in their order, without some of the last ones. -/
  | array {given omitted : List Field} {items : List Json} (split : fields = given ++ omitted)
      (forms : List.Forall₂ Field.Fits given items)
      (omittable : ∀ field ∈ omitted, field.Omittable) : RecordForm fields (.array items)
  /-- The fields by their names, each at most once, and any other members. -/
  | object {named : List (String × Json)} {members : List (List StringUnit × Json)}
      (names : List.Forall₂ (fun entry member => TextSpelling entry.1 member.1 ∧
        entry.2 = member.2) named members)
      (once : ∀ field ∈ fields, (named.map Prod.fst).count field.name ≤ 1)
      (forms : ∀ field ∈ fields, ∀ value, (field.name, value) ∈ named → field.Fits value)
      (omittable : ∀ field ∈ fields, field.name ∉ named.map Prod.fst → field.Omittable) :
      RecordForm fields (.object members)

/-- An object whose names are spelled with their own bytes. -/
def plainObject (named : List (String × Json)) : Json :=
  .object (named.map fun entry => (plain entry.1, entry.2))

/-- An object whose names are spelled with their own bytes stands for a record if its
members do. -/
theorem recordForm_plainObject {fields : List Field} {named : List (String × Json)}
    (once : ∀ field ∈ fields, (named.map Prod.fst).count field.name ≤ 1)
    (forms : ∀ field ∈ fields, ∀ value, (field.name, value) ∈ named → field.Fits value)
    (omittable : ∀ field ∈ fields, field.name ∉ named.map Prod.fst → field.Omittable) :
    RecordForm fields (plainObject named) := by
  refine .object ?_ once forms omittable
  rw [List.forall₂_map_right_iff, List.forall₂_same]
  exact fun entry _ => ⟨textSpelling_plain entry.1, rfl⟩

/-- What is found under the name of a field may stand for it, and if nothing is found, it
may be left out. -/
structure Field.FoundIn (known : List (String × Json)) (field : Field) : Prop where
  form : ∀ value, known.lookup field.name = some value → field.Fits value
  omittable : known.lookup field.name = none → field.Omittable

/-- A value that is found under a name stands there. -/
theorem mem_of_lookup {known : List (String × Json)} {name : String} {value : Json}
    (found : known.lookup name = some value) : (name, value) ∈ known := by
  obtain ⟨before, behind, rfl, -⟩ := List.lookup_eq_some_iff.mp found
  simp

/-- Where nothing is found under a name, the name does not occur. -/
theorem not_mem_of_lookup {known : List (String × Json)} {name : String}
    (missing : known.lookup name = none) : name ∉ known.map Prod.fst := by
  intro member
  obtain ⟨entry, inside, rfl⟩ := List.mem_map.mp member
  simpa using List.lookup_eq_none_iff.mp missing entry inside

/-- An item of an array stands for the field with its name. -/
theorem exists_field_of_mem_zip {given : List Field} {items : List Json}
    (forms : List.Forall₂ Field.Fits given items) :
    ∀ entry ∈ (given.map Field.name).zip items,
      ∃ field ∈ given, field.name = entry.1 ∧ field.Fits entry.2 := by
  induction forms with
  | nil => simp
  | cons here rest inductionHypothesis =>
    rw [List.map_cons, List.zip_cons_cons, List.forall_mem_cons]
    refine ⟨⟨_, List.mem_cons_self, rfl, here⟩, fun entry member => ?_⟩
    obtain ⟨field, inside, found⟩ := inductionHypothesis entry member
    exact ⟨field, List.mem_cons_of_mem _ inside, found⟩

/-- The names of omitted fields meet no item. -/
theorem zip_names {given omitted : List Field} {items : List Json}
    (lengths : given.length = items.length) :
    ((given ++ omitted).map Field.name).zip items = (given.map Field.name).zip items := by
  have same : (given.map Field.name).length = items.length := by rw [List.length_map, lengths]
  have unused : (given.map Field.name ++ omitted.map Field.name).zip (items ++ []) =
      (given.map Field.name).zip items ++ (omitted.map Field.name).zip [] :=
    List.zip_append same
  rwa [List.append_nil, List.zip_nil_right, List.append_nil, ← List.map_append] at unused

/-- The fields of an array are found under their names. -/
theorem foundIn_zip {given omitted : List Field} {items : List Json}
    (distinct : ((given ++ omitted).map Field.name).Nodup)
    (forms : List.Forall₂ Field.Fits given items)
    (omittable : ∀ field ∈ omitted, field.Omittable) :
    ∀ field ∈ given ++ omitted, field.FoundIn ((given.map Field.name).zip items) := by
  have lengths : (given.map Field.name).length = items.length := by
    rw [List.length_map, forms.length_eq]
  intro field member
  constructor
  · intro value found
    obtain ⟨other, inside, same, form⟩ := exists_field_of_mem_zip forms _ (mem_of_lookup found)
    have unique : other = field :=
      List.inj_on_of_nodup_map distinct (List.mem_append_left _ inside) member same
    exact unique ▸ form
  · intro missing
    rcases List.mem_append.mp member with inside | inside
    · have absent := not_mem_of_lookup missing
      rw [List.map_fst_zip lengths.le] at absent
      exact absurd (List.mem_map_of_mem inside) absent
    · exact omittable field inside

/-- A list is decoded where each of its elements is. -/
theorem mapM_of_forall₂ {α β : Type} {decode? : α → Option β} {values : List β} {items : List α}
    (each : List.Forall₂ (fun value item => decode? item = some value) values items) :
    items.mapM decode? = some values := by
  induction each with
  | nil => rfl
  | cons here rest inductionHypothesis =>
    rw [List.mapM_cons, here, inductionHypothesis]
    rfl

/-- The known names of an object are distinct if none of them is given twice. -/
theorem nodup_known {named : List (String × Json)} {names : List String}
    (once : ∀ name ∈ names, (named.map Prod.fst).count name ≤ 1) :
    ((named.filter fun entry => names.contains entry.1).map Prod.fst).Nodup := by
  rw [List.nodup_iff_count_le_one]
  intro name
  by_cases known : name ∈ names
  · exact (List.Sublist.count_le _ (List.filter_sublist.map _)).trans (once name known)
  · rw [List.count_eq_zero_of_not_mem]
    · exact Nat.zero_le 1
    · intro member
      obtain ⟨entry, inside, rfl⟩ := List.mem_map.mp member
      exact known (by simpa using (List.mem_filter.mp inside).2)

/-- The fields of a record are found under their names. -/
theorem RecordForm.fields_found {fields : List Field} {json : Json}
    (record : RecordForm fields json) (distinct : (fields.map Field.name).Nodup) :
    ∃ known, json.fields? (fields.map Field.name) = some known ∧
      ∀ field ∈ fields, field.FoundIn known := by
  cases record with
  | @array given omitted items split forms omittable =>
    subst split
    refine ⟨(given.map Field.name).zip items, ?_, foundIn_zip distinct forms omittable⟩
    have lengths : (given.map Field.name).length = items.length := by
      rw [List.length_map, forms.length_eq]
    have fits : items.length ≤ ((given ++ omitted).map Field.name).length := by
      rw [List.map_append, List.length_append]
      omega
    rw [fields?, if_pos fits, zip_names forms.length_eq]
  | @object named members names once forms omittable =>
    have read : members.mapM (fun member => (text? member.1).map (·, member.2)) = some named := by
      refine mapM_of_forall₂ (names.imp fun entry member spelled => ?_)
      rw [spelled.1.read, ← spelled.2]
      rfl
    have distinct_known := nodup_known (List.forall_mem_map.mpr once)
    refine ⟨named.filter fun entry => (fields.map Field.name).contains entry.1, ?_, ?_⟩
    · rw [fields?, read]
      exact if_pos distinct_known
    intro field inside
    constructor
    · intro value found
      exact forms field inside value (List.mem_filter.mp (mem_of_lookup found)).1
    · intro missing
      apply omittable field inside
      intro member
      apply not_mem_of_lookup missing
      obtain ⟨entry, stands, same⟩ := List.mem_map.mp member
      refine List.mem_map.mpr ⟨entry, List.mem_filter.mpr ⟨stands, ?_⟩, same⟩
      simpa [same] using ⟨field, inside, rfl⟩

/-- A decoder gives back the value of every JSON value that stands for one. -/
def Decodes {α : Type} (decode? : Json → Option α) (form : Form α) : Prop :=
  ∀ value json, form value json → decode? json = some value

/-- A required field that is found is decoded. -/
theorem Field.FoundIn.required {α : Type} {known : List (String × Json)} {name : String}
    {form : Form α} {value : α} (found : FoundIn known (.required name form value))
    {decode? : Json → Option α} (decodes : Decodes decode? form) :
    required? known name decode? = some value := by
  cases present : known.lookup name with
  | none => exact (found.omittable present).elim
  | some json =>
    rw [required?, present]
    exact decodes value json (found.form json present)

/-- A field with a default is decoded, found or not. -/
theorem Field.FoundIn.defaulted {α : Type} {known : List (String × Json)} {name : String}
    {form : Form α} {default value : α} (found : FoundIn known (.defaulted name form default value))
    {decode? : Json → Option α} (decodes : Decodes decode? form) :
    field? known name default decode? = some value := by
  cases present : known.lookup name with
  | none =>
    rw [field?, present]
    exact congrArg some (found.omittable present).symm
  | some json =>
    rw [field?, present]
    exact decodes value json (found.form json present)

/-- Texts are decoded. -/
theorem decodes_text : Decodes string? textForm := by
  rintro text _ ⟨units, rfl, spelled⟩
  exact spelled.read

/-- Truth values are decoded. -/
theorem decodes_bool : Decodes bool? boolForm := by
  rintro value _ rfl
  rfl

/-- Lists are decoded where their elements are. -/
theorem Decodes.list {α : Type} {decode? : Json → Option α} {form : Form α}
    (decodes : Decodes decode? form) : Decodes (list? decode?) (listForm form) := by
  rintro values _ ⟨items, rfl, forms⟩
  exact mapM_of_forall₂ (forms.imp decodes)

/-- Optional values are decoded where the values are, and `null` is none of them. -/
theorem Decodes.optional {α : Type} {decode? : Json → Option α} {form : Form α}
    (decodes : Decodes decode? form) (solid : decode? .null = none) :
    Decodes (optional? decode?) (optionalForm form) := by
  intro value json given
  cases value with
  | none =>
    cases given
    rfl
  | some value =>
    have decoded := decodes value json given
    cases json with
    | null => simp [solid] at decoded
    | _ => simp [optional?, decoded]

/-- A decimal digit as a byte has the value of the digit. -/
theorem digit_toUInt8 {digit : Char} (decimal : digit.isDigit) :
    isDigit digit.toUInt8 ∧
      (digit.toUInt8 - '0'.toUInt8).toNat = digit.toNat - '0'.toNat := by
  obtain ⟨above, below⟩ := Char.isDigit_iff_toNat.mp decimal
  have zero : '0'.toNat = 48 := rfl
  have nine : '9'.toNat = 57 := rfl
  have zero_byte : '0'.toUInt8.toNat = 48 := rfl
  have nine_byte : '9'.toUInt8.toNat = 57 := rfl
  have byte : digit.toUInt8.toNat = digit.toNat := by
    have wrapped : digit.toUInt8.toNat = digit.toNat % 256 := rfl
    omega
  constructor
  · rw [isDigit, Bool.and_eq_true, decide_eq_true_iff, decide_eq_true_iff,
      UInt8.le_iff_toNat_le, UInt8.le_iff_toNat_le]
    omega
  · rw [UInt8.toNat_sub_of_le, byte]
    · omega
    · rw [UInt8.le_iff_toNat_le]
      omega

/-- The decimal digits of a number have its value. -/
theorem digitsValue_decimal (number : Nat) : digitsValue (decimal number) = number := by
  calc
    _ = Nat.ofDigitChars 10 (Nat.toDigits 10 number) 0 := by
      rw [digitsValue, decimal, List.foldl_map, Nat.ofDigitChars]
      apply List.foldl_ext
      intro value digit member
      have decimal := Nat.isDigit_of_mem_toDigits (by decide) (by decide) member
      rw [(digit_toUInt8 decimal).2, Nat.mul_comm]
    _ = number := Nat.ofDigitChars_ten_toDigits

/-- The decimal digits of a number are digits. -/
theorem isDigit_of_mem_decimal {number : Nat} : ∀ byte ∈ decimal number, isDigit byte := by
  rw [decimal, List.forall_mem_map]
  intro digit member
  exact (digit_toUInt8 (Nat.isDigit_of_mem_toDigits (by decide) (by decide) member)).1

/-- Ids are decoded. -/
theorem decodes_id : Decodes id? idForm := by
  rintro id _ rfl
  have digits : (decimal id.toNat).all isDigit := List.all_eq_true.mpr isDigit_of_mem_decimal
  rw [id?, digits, digitsValue_decimal, Bool.true_and,
    if_pos (decide_eq_true id.toNat_lt), UInt64.ofNat_toNat]

end Json

namespace Parameter

/-- The fields of a parameter. -/
def fields (parameter : Parameter) : List Json.Field :=
  [.required "id" Json.textForm parameter.name,
    .defaulted "type" (Json.optionalForm Json.textForm) none parameter.type,
    .defaulted "value" (Json.optionalForm Json.textForm) none parameter.default]

/-- The JSON values that stand for a parameter. -/
def form : Json.Form Parameter := fun parameter => Json.RecordForm parameter.fields

end Parameter

namespace Segment

/-- The fields of a segment. -/
def fields (segment : Segment) : List Json.Field :=
  [.required "id" Json.textForm segment.name,
    .defaulted "arguments" (Json.optionalForm (Json.listForm Json.textForm)) none
      segment.arguments]

/-- The JSON values that stand for a segment. -/
def form : Json.Form Segment := fun segment => Json.RecordForm segment.fields

end Segment

namespace Row

/-- The fields of a row. -/
def fields (row : Row) : List Json.Field :=
  [.required "id" Json.idForm row.id,
    .defaulted "parentId" Json.idForm 0 row.parent,
    .required "kind" Json.textForm row.kind,
    .defaulted "ids" (Json.listForm Json.textForm) [] row.names,
    .defaulted "type" (Json.optionalForm Json.textForm) none row.type,
    .defaulted "value" (Json.optionalForm Json.textForm) none row.value,
    .defaulted "values" (Json.listForm Json.textForm) [] row.values,
    .defaulted "text" (Json.optionalForm Json.textForm) none row.text,
    .defaulted "println" Json.boolForm false row.newline,
    .defaulted "parameters" (Json.listForm Parameter.form) [] row.parameters,
    .defaulted "segments" (Json.listForm Segment.form) [] row.segments]

/-- The JSON values that stand for a row. -/
def form : Json.Form Row := fun row => Json.RecordForm row.fields

end Row

namespace Message

/-- The fields of a message. -/
def fields (message : Message) : List Json.Field :=
  [.required "nodes" (Json.listForm Row.form) message.rows]

/-- The JSON values that stand for a message. -/
def form : Json.Form Message := fun message => Json.RecordForm message.fields

end Message

/-- Texts that may be missing are decoded. -/
theorem Json.decodes_optional_text :
    Decodes (optional? string?) (optionalForm textForm) :=
  decodes_text.optional rfl

/-- Parameters are decoded. -/
theorem Parameter.decodes_form : Json.Decodes ofJson? form := by
  intro parameter json record
  obtain ⟨known, read, found⟩ := record.fields_found (by decide : fieldNames.Nodup)
  simp only [fields, List.forall_mem_cons] at found
  obtain ⟨name, type, default, -⟩ := found
  have read : json.fields? fieldNames = some known := read
  simp [ofJson?, read, name.required Json.decodes_text,
    type.defaulted Json.decodes_optional_text, default.defaulted Json.decodes_optional_text]

/-- Segments are decoded. -/
theorem Segment.decodes_form : Json.Decodes ofJson? form := by
  intro segment json record
  obtain ⟨known, read, found⟩ := record.fields_found (by decide : fieldNames.Nodup)
  simp only [fields, List.forall_mem_cons] at found
  obtain ⟨name, arguments, -⟩ := found
  have read : json.fields? fieldNames = some known := read
  simp [ofJson?, read, name.required Json.decodes_text,
    arguments.defaulted (Json.decodes_text.list.optional rfl)]

/-- Rows are decoded. -/
theorem Row.decodes_form : Json.Decodes ofJson? form := by
  intro row json record
  obtain ⟨known, read, found⟩ := record.fields_found (by decide : fieldNames.Nodup)
  simp only [fields, List.forall_mem_cons] at found
  obtain ⟨id, parent, kind, names, type, value, values, text, newline, parameters, segments, -⟩ :=
    found
  have read : json.fields? fieldNames = some known := read
  simp [ofJson?, read, id.required Json.decodes_id, parent.defaulted Json.decodes_id,
    kind.required Json.decodes_text, names.defaulted Json.decodes_text.list,
    type.defaulted Json.decodes_optional_text, value.defaulted Json.decodes_optional_text,
    values.defaulted Json.decodes_text.list, text.defaulted Json.decodes_optional_text,
    newline.defaulted Json.decodes_bool, parameters.defaulted Parameter.decodes_form.list,
    segments.defaulted Segment.decodes_form.list]

/-- Messages are decoded. -/
theorem Message.decodes_form : Json.Decodes ofJson? form := by
  intro message json record
  obtain ⟨known, read, found⟩ := record.fields_found (by decide : ["nodes"].Nodup)
  have rows := found _ (List.mem_singleton.mpr rfl)
  have read : json.fields? ["nodes"] = some known := read
  simp [ofJson?, read, rows.required Row.decodes_form.list]

end Treescribe
