import Mathlib.Data.List.Count
import Mathlib.Data.Option.Basic
import Treescribe.Proofs.Message.Readings

/-!
# Faults in messages

A message is made of records, and a record may lie deep inside it. One fault in one of
them keeps the whole text from being decoded: a field that is missing, given twice or one
too many, or an id that is no number of 64 bits. Members that are no fields are not looked
into. An id that is decoded is the number that its digits denote.
-/

namespace Treescribe

/-- The kinds of records in a message. -/
inductive RecordKind where
  | message
  | row
  | parameter
  | segment

namespace RecordKind

/-- The fields of a record, in order. -/
def names : RecordKind → List String
  | .message => ["nodes"]
  | .row => Row.fieldNames
  | .parameter => Parameter.fieldNames
  | .segment => Segment.fieldNames

/-- The fields that have to be present. -/
def required : RecordKind → List String
  | .message => ["nodes"]
  | .row => ["id", "kind"]
  | .parameter | .segment => ["id"]

/-- The fields that hold an id. -/
def numbered : RecordKind → List String
  | .row => ["id", "parentId"]
  | _ => []

/-- The fields that hold a list of records, with the kind of these. -/
def nested : RecordKind → List (String × RecordKind)
  | .message => [("nodes", .row)]
  | .row => [("parameters", .parameter), ("segments", .segment)]
  | _ => []

/-- No two fields of a record share their name. -/
theorem nodup_names (kind : RecordKind) : kind.names.Nodup := by
  cases kind <;> decide

end RecordKind

namespace Json

/-- A value that a record with these fields gives for one of them: that of a member with the
name of the field, however it is spelled, or the item in the place of the field. -/
inductive Given (names : List String) : Json → String → Json → Prop where
  | member {members : List (List StringUnit × Json)} {units : List StringUnit} {name : String}
      {value : Json} (listed : (units, value) ∈ members) (spelled : TextSpelling name units) :
      Given names (.object members) name value
  | item {items : List Json} {place : Nat} {name : String} {value : Json}
      (field : names[place]? = some name) (stands : items[place]? = some value) :
      Given names (.array items) name value

/-- A record at its place in a message. -/
inductive HasRecord (whole : Json) : RecordKind → Json → Prop where
  | whole : HasRecord whole .message whole
  | inside {outer inner : RecordKind} {record part : Json} {name : String} {items : List Json}
      (around : HasRecord whole outer record) (listed : (name, inner) ∈ outer.nested)
      (given : Given outer.names record name (.array items)) (contained : part ∈ items) :
      HasRecord whole inner part

end Json

/-- What may be wrong with a record. -/
inductive RecordKind.Fault (kind : RecordKind) : Json → Prop where
  /-- A required field is not given. -/
  | missing {record : Json} {name : String} (needed : name ∈ kind.required)
      (absent : ∀ value, ¬ Json.Given kind.names record name value) : Fault kind record
  /-- Two members have the name of one field. -/
  | repeated {members : List (List StringUnit × Json)} {name : String}
      {first second : List StringUnit × Json} (known : name ∈ kind.names)
      (both : [first, second].Sublist members) (first_spelled : Json.TextSpelling name first.1)
      (second_spelled : Json.TextSpelling name second.1) : Fault kind (.object members)
  /-- There are more items than fields. -/
  | surplus {items : List Json} (more : kind.names.length < items.length) :
      Fault kind (.array items)
  /-- The items end in front of a required field. -/
  | short {items : List Json} {place : Nat} {name : String} (needed : name ∈ kind.required)
      (field : kind.names[place]? = some name) (ends : items.length ≤ place) :
      Fault kind (.array items)
  /-- An id is given as something else than the decimal digits of a number of 64 bits. -/
  | misnumbered {record : Json} {name : String} {value : Json} (number : name ∈ kind.numbered)
      (given : Json.Given kind.names record name value)
      (other : ∀ number < UInt64.size, value ≠ .number (Json.decimal number)) : Fault kind record

namespace Json

/-- A spelling has one text. -/
theorem TextSpelling.unique {first second : String} {units : List StringUnit}
    (first_spelled : TextSpelling first units) (second_spelled : TextSpelling second units) :
    first = second :=
  Option.some.inj (first_spelled.read.symm.trans second_spelled.read)

namespace RecordForm

variable {fields : List Field} {json : Json}

/-- A field that may not be left out is given. -/
theorem exists_given (record : RecordForm fields json) {field : Field} (member : field ∈ fields)
    (needed : ¬ field.Omittable) :
    ∃ value, Given (fields.map Field.name) json field.name value := by
  cases record with
  | @array given omitted items split forms omittable =>
    subst split
    have inside : field ∈ given :=
      (List.mem_append.mp member).resolve_right fun left_out =>
        needed (omittable field left_out)
    obtain ⟨place, found⟩ := List.getElem?_of_mem inside
    obtain ⟨value, stands, -⟩ := getElem?_of_forall₂ forms.flip found
    refine ⟨value, .item ?_ stands⟩
    rw [List.getElem?_map, List.getElem?_append_left (List.getElem?_eq_some_iff.mp found).1, found]
    rfl
  | @object named members names once forms omittable =>
    have named_field : field.name ∈ named.map Prod.fst := by
      by_contra absent
      exact needed (omittable field member absent)
    obtain ⟨entry, inside, same⟩ := List.mem_map.mp named_field
    obtain ⟨source, listed, spelled, -⟩ := exists_of_forall₂ names.flip inside
    exact ⟨source.2, .member listed (same ▸ spelled)⟩

/-- What is given for a field may stand for it. -/
theorem fits (record : RecordForm fields json) (distinct : (fields.map Field.name).Nodup)
    {field : Field} (member : field ∈ fields) {value : Json}
    (given : Given (fields.map Field.name) json field.name value) : field.Fits value := by
  cases record with
  | @array first omitted items split forms omittable =>
    subst split
    cases given with
    | item named stands =>
      obtain ⟨other, found, form⟩ := getElem?_of_forall₂ forms stands
      have listed : (first ++ omitted)[_]? = some other :=
        List.getElem?_append_left (List.getElem?_eq_some_iff.mp found).1 ▸ found
      rw [List.getElem?_map, listed] at named
      have same : other.name = field.name := Option.some.inj named
      have unique := List.inj_on_of_nodup_map distinct (List.mem_of_getElem? listed) member same
      exact unique ▸ form
  | @object named members names once forms omittable =>
    cases given with
    | member listed spelled =>
      obtain ⟨⟨name, entry⟩, inside, name_spelled, rfl⟩ := exists_of_forall₂ names listed
      have same := name_spelled.unique spelled
      exact forms field member entry (same ▸ inside)

/-- No field is given two values. -/
theorem given_unique (record : RecordForm fields json) (distinct : (fields.map Field.name).Nodup)
    {field : Field} (member : field ∈ fields) {value other : Json}
    (given : Given (fields.map Field.name) json field.name value)
    (given_other : Given (fields.map Field.name) json field.name other) : value = other := by
  cases record with
  | array split forms omittable =>
    cases given with
    | item named stands =>
      cases given_other with
      | item other_named other_stands =>
        have inside := (List.getElem?_eq_some_iff.mp named).1
        have same := (List.getElem?_inj inside distinct).mp (named.trans other_named.symm)
        subst same
        exact Option.some.inj (stands.symm.trans other_stands)
  | @object named members names once forms omittable =>
    have entry {value : Json} (given : Given (fields.map Field.name) (.object members)
        field.name value) :
        (field.name, value) ∈ named.filter fun entry => [field.name].contains entry.1 := by
      cases given with
      | member listed spelled =>
        obtain ⟨⟨name, entry⟩, inside, name_spelled, rfl⟩ := exists_of_forall₂ names listed
        have same := name_spelled.unique spelled
        exact List.mem_filter.mpr ⟨same ▸ inside, by simp⟩
    have single := nodup_known (List.forall_mem_singleton.mpr (once field member))
    exact congrArg Prod.snd
      (List.inj_on_of_nodup_map single (entry given) (entry given_other) rfl)

/-- No field is given by two members. -/
theorem not_repeated {members : List (List StringUnit × Json)}
    (record : RecordForm fields (.object members)) {field : Field} (member : field ∈ fields)
    {first second : List StringUnit × Json} (both : [first, second].Sublist members)
    (first_spelled : TextSpelling field.name first.1) :
    ¬ TextSpelling field.name second.1 := by
  intro second_spelled
  cases record with
  | @object named _ names once forms omittable =>
    -- The texts of the names, as they are read, hold the name twice.
    have read : members.map (fun member => text? member.1) =
        (named.map Prod.fst).map some := by
      rw [List.map_map]
      exact map_eq_of_forall₂ (names.imp fun entry member spelled => spelled.1.read)
    have twice := both.map fun member => text? member.1
    rw [read, List.map_cons, List.map_singleton, first_spelled.read, second_spelled.read] at twice
    have count := twice.count_le (some field.name)
    rw [List.count_map_of_injective _ _ (Option.some_injective _)] at count
    have at_most := once field member
    simp only [List.count_cons_self, List.count_nil] at count
    omega

/-- An array has no more items than fields. -/
theorem length_le {items : List Json} (record : RecordForm fields (.array items)) :
    items.length ≤ fields.length := by
  cases record with
  | array split forms omittable =>
    rw [split, List.length_append, ← forms.length_eq]
    omega

end RecordForm

/-- The items of a list stand for its elements. -/
theorem exists_of_listForm {α : Type} {form : Form α} {values : List α} {items : List Json}
    (list : listForm form values (.array items)) : ∀ item ∈ items, ∃ value, form value item := by
  obtain ⟨_, ⟨⟩, forms⟩ := list
  intro item member
  obtain ⟨value, -, stands⟩ := exists_of_forall₂ forms member
  exact ⟨value, stands⟩

end Json

namespace RecordKind

/-- The JSON values that stand for a record of this kind. -/
def Accepts : RecordKind → Json → Prop
  | .message, json => ∃ message, Message.form message json
  | .row, json => ∃ row, Row.form row json
  | .parameter, json => ∃ parameter, Parameter.form parameter json
  | .segment, json => ∃ segment, Segment.form segment json

/-- Fields as a record of this kind has them. -/
structure Suits (kind : RecordKind) (fields : List Json.Field) : Prop where
  names : fields.map Json.Field.name = kind.names
  required : ∀ field ∈ fields, field.name ∈ kind.required → ¬ field.Omittable
  numbered : ∀ field ∈ fields, field.name ∈ kind.numbered → ∀ value, field.Fits value →
    ∃ number < UInt64.size, value = .number (Json.decimal number)
  nested : ∀ field ∈ fields, ∀ inner, (field.name, inner) ∈ kind.nested →
    ∀ items, field.Fits (.array items) → ∀ item ∈ items, inner.Accepts item

/-- The digits of an id are those of a number of 64 bits. -/
theorem exists_of_idForm (id : UInt64) :
    ∀ value, Json.idForm id value → ∃ number < UInt64.size, value = .number (Json.decimal number) :=
  fun _ form => ⟨id.toNat, id.toNat_lt_size, form⟩

/-- A record has the fields of its kind. -/
theorem Accepts.exists_fields {kind : RecordKind} {json : Json} (accepts : kind.Accepts json) :
    ∃ fields, Json.RecordForm fields json ∧ kind.Suits fields := by
  cases kind with
  | message =>
    obtain ⟨message, form⟩ := accepts
    refine ⟨_, form, rfl, ?_, ?_, ?_⟩
    · simp [Message.fields, Json.Field.required]
    · simp [numbered]
    · have rows : ∀ items, Json.listForm Row.form message.rows (.array items) →
          ∀ item ∈ items, row.Accepts item := fun _ => Json.exists_of_listForm
      simpa [Message.fields, Json.Field.required, nested] using rows
  | row =>
    obtain ⟨row, form⟩ := accepts
    refine ⟨_, form, rfl, ?_, ?_, ?_⟩
    · simp [Row.fields, Json.Field.required, Json.Field.defaulted, required]
    · simpa [Row.fields, Json.Field.required, Json.Field.defaulted, numbered] using
        ⟨exists_of_idForm row.id, exists_of_idForm row.parent⟩
    · have parameters : ∀ items, Json.listForm Parameter.form row.parameters (.array items) →
          ∀ item ∈ items, parameter.Accepts item := fun _ => Json.exists_of_listForm
      have segments : ∀ items, Json.listForm Segment.form row.segments (.array items) →
          ∀ item ∈ items, segment.Accepts item := fun _ => Json.exists_of_listForm
      simpa [Row.fields, Json.Field.required, Json.Field.defaulted, nested] using
        ⟨parameters, segments⟩
  | parameter =>
    obtain ⟨parameter, form⟩ := accepts
    refine ⟨_, form, rfl, ?_, ?_, ?_⟩
    · simp [Parameter.fields, Json.Field.required, Json.Field.defaulted, required]
    · simp [numbered]
    · simp [nested]
  | segment =>
    obtain ⟨segment, form⟩ := accepts
    refine ⟨_, form, rfl, ?_, ?_, ?_⟩
    · simp [Segment.fields, Json.Field.required, Json.Field.defaulted, required]
    · simp [numbered]
    · simp [nested]

/-- Whatever is said of a field is said of one of the fields. -/
theorem fields_known (kind : RecordKind) :
    kind.required ⊆ kind.names ∧ kind.numbered ⊆ kind.names ∧
      kind.nested.map Prod.fst ⊆ kind.names := by
  cases kind <;> decide

/-- A field is known by its name. -/
theorem Suits.exists_field {kind : RecordKind} {fields : List Json.Field}
    (suits : kind.Suits fields) {name : String} (known : name ∈ kind.names) :
    ∃ field ∈ fields, field.name = name := by
  rw [← suits.names] at known
  exact List.mem_map.mp known

/-- A record that stands for one has no fault. -/
theorem Accepts.faultless {kind : RecordKind} {record : Json} (accepts : kind.Accepts record) :
    ¬ kind.Fault record := by
  obtain ⟨fields, form, suits⟩ := accepts.exists_fields
  have distinct := kind.nodup_names
  rw [← suits.names] at distinct
  -- A required field is given, in an array at its own place.
  have given {name : String} (needed : name ∈ kind.required) :
      ∃ value, Json.Given kind.names record name value := by
    obtain ⟨field, member, rfl⟩ := suits.exists_field (kind.fields_known.1 needed)
    rw [← suits.names]
    exact form.exists_given member (suits.required field member needed)
  intro fault
  cases fault with
  | missing needed absent =>
    obtain ⟨value, given⟩ := given needed
    exact absent value given
  | repeated known both first_spelled second_spelled =>
    obtain ⟨field, member, rfl⟩ := suits.exists_field known
    exact form.not_repeated member both first_spelled second_spelled
  | surplus more =>
    have bound := form.length_le
    rw [← suits.names, List.length_map] at more
    omega
  | @short items place name needed field ends =>
    obtain ⟨value, given⟩ := given needed
    cases given with
    | @item _ other _ _ named stands =>
      have inside := (List.getElem?_eq_some_iff.mp field).1
      have same : place = other :=
        (List.getElem?_inj inside kind.nodup_names).mp (field.trans named.symm)
      have bound := (List.getElem?_eq_some_iff.mp stands).1
      omega
  | misnumbered number given other =>
    obtain ⟨field, member, rfl⟩ := suits.exists_field (kind.fields_known.2.1 number)
    rw [← suits.names] at given
    obtain ⟨id, bound, same⟩ :=
      suits.numbered field member number _ (form.fits distinct member given)
    exact other id bound same

end RecordKind

/-- Wherever it is in a message, a record stands for one. -/
theorem Json.HasRecord.accepts {whole record : Json} {kind : RecordKind}
    (has : whole.HasRecord kind record) (message : RecordKind.message.Accepts whole) :
    kind.Accepts record := by
  induction has with
  | whole => exact message
  | @inside outer inner record part name items around listed given contained inductionHypothesis =>
    obtain ⟨fields, form, suits⟩ := inductionHypothesis.exists_fields
    have distinct := outer.nodup_names
    rw [← suits.names] at distinct given
    obtain ⟨field, member, rfl⟩ :=
      suits.exists_field (outer.fields_known.2.2 (List.mem_map_of_mem listed))
    exact suits.nested field member inner listed items (form.fits distinct member given) part
      contained

namespace Row

/-- The ids of a row are the numbers that the digits given for them denote, and without digits
the parent is zero. -/
structure Numbered (row : Row) (json : Json) : Prop where
  id : ∀ value, Json.Given fieldNames json "id" value ↔
    value = .number (Json.decimal row.id.toNat)
  parent : ∀ value, Json.Given fieldNames json "parentId" value →
    value = .number (Json.decimal row.parent.toNat)
  root : (∀ value, ¬ Json.Given fieldNames json "parentId" value) → row.parent = 0

/-- What stands for a row has its ids. -/
theorem numbered_of_form {row : Row} {json : Json} (form : Row.form row json) :
    row.Numbered json := by
  have distinct : (row.fields.map Json.Field.name).Nodup := (by decide : fieldNames.Nodup)
  have id_field : Json.Field.required "id" Json.idForm row.id ∈ row.fields := List.mem_cons_self
  have parent_field : Json.Field.defaulted "parentId" Json.idForm 0 row.parent ∈ row.fields :=
    List.mem_cons_of_mem _ List.mem_cons_self
  refine ⟨fun value => ⟨form.fits distinct id_field, ?_⟩,
    fun value => form.fits distinct parent_field, ?_⟩
  · rintro rfl
    obtain ⟨value, given⟩ := form.exists_given id_field not_false
    have same : value = _ := form.fits distinct id_field given
    exact same ▸ given
  · intro absent
    by_contra other
    obtain ⟨value, given⟩ := form.exists_given parent_field other
    exact absent value given

end Row

namespace Message

/-- What stands for a message gives the items of its nodes, one for each row. -/
theorem exists_nodes {message : Message} {json : Json} (form : Message.form message json) :
    ∃ items, (∀ value, Json.Given ["nodes"] json "nodes" value ↔ value = .array items) ∧
      List.Forall₂ Row.form message.rows items := by
  have distinct : (message.fields.map Json.Field.name).Nodup := List.nodup_singleton _
  have field : Json.Field.required "nodes" (Json.listForm Row.form) message.rows ∈
      message.fields := List.mem_cons_self
  obtain ⟨value, given⟩ := form.exists_given field not_false
  obtain ⟨items, rfl, rows⟩ := form.fits distinct field given
  refine ⟨items, fun value => ⟨fun other => ?_, ?_⟩, rows⟩
  · exact form.given_unique distinct field other given
  · rintro rfl
    exact given

/-- One fault in one record keeps a text from being decoded, wherever it is. A text that is
decoded has a row for each item of its nodes, with the ids that the item gives. -/
theorem faults_rejected :
    (∀ (bytes : List UInt8) (json : Json) (kind : RecordKind) (record : Json),
      json.Text bytes → json.HasRecord kind record → kind.Fault record → decode? bytes = none) ∧
    ∀ bytes message, decode? bytes = some message → ∃ (json : Json) (items : List Json),
      json.Text bytes ∧ (∀ value, Json.Given ["nodes"] json "nodes" value ↔ value = .array items) ∧
        List.Forall₂ Row.Numbered message.rows items := by
  constructor
  · intro bytes json kind record text has fault
    rw [Option.eq_none_iff_forall_ne_some]
    intro message decoded
    obtain ⟨other, form, other_text⟩ := decode?_eq_some_iff.mp decoded
    have same : other = json := Option.some.inj (other_text.parsed.symm.trans text.parsed)
    subst same
    exact (has.accepts ⟨message, form⟩).faultless fault
  · intro bytes message decoded
    obtain ⟨json, form, text⟩ := decode?_eq_some_iff.mp decoded
    obtain ⟨items, given, rows⟩ := exists_nodes form
    exact ⟨json, items, text, given, rows.imp fun row item => Row.numbered_of_form⟩

/-- A parameter with two members of one name, one of them with an escape in it. -/
def twiceNamed : Json :=
  .object [(Json.plain "id", .string (Json.plain "a")),
    ([.code 0x69, .byte 'd'.toUInt8], .string (Json.plain "b"))]

/-- A row with that parameter. -/
def twiceNamedRow : Json :=
  .plainObject [("kind", .string (Json.plain "k")), ("id", .number (Json.decimal 2)),
    ("parameters", .array [twiceNamed])]

/-- The row behind another one. -/
def twiceNamedRows : List Json :=
  [.array [.number (Json.decimal 1), .number (Json.decimal 0), .string (Json.plain "k")],
    twiceNamedRow]

/-- The rows, behind a member that is none of the fields. -/
def twiceNamedJson : Json :=
  .plainObject [("x", .array [.plainObject []]), ("nodes", .array twiceNamedRows)]

/-- A text of the rows. -/
def twiceNamedText : String :=
  "\x7b\"x\":[\x7b\x7d],\"nodes\":[[1,0,\"k\"],\n" ++
    "\x7b\"kind\":\"k\",\"id\":2,\"parameters\":[\x7b\"id\":\"a\",\"\\u0069d\":\"b\"\x7d]\x7d]\x7d"

/-- The text spells the JSON value. -/
theorem text_twiceNamed : twiceNamedJson.Text twiceNamedText.toUTF8.toList := by
  have escaped : Json.UnitSpelling (.code 0x69) _ :=
    .code (by decide : Json.HexDigit '0'.toUInt8 0) (by decide : Json.HexDigit '0'.toUInt8 0)
      (by decide : Json.HexDigit '6'.toUInt8 6) (by decide : Json.HexDigit '9'.toUInt8 9)
  have letter : Json.UnitSpelling (.byte 'd'.toUInt8) _ :=
    .byte (by decide) (by decide) (by decide)
  have line_feed : ['\n'.toUInt8] ⊆ Json.whiteSpace := by decide
  have spelled : Json.SequenceSpelling twiceNamedJson.tokens _ :=
    .next .openObject <| .next (Json.tokenSpelling_plain (by decide)) <| .next .colon <|
    .next .openArray <| .next .openObject <| .next .closeObject <| .next .closeArray <|
    .next .comma <| .next (Json.tokenSpelling_plain (by decide)) <| .next .colon <|
    .next .openArray <|
    .next .openArray <| .next (.number (Json.numberLiteral_decimal _)) <| .next .comma <|
    .next (.number (Json.numberLiteral_decimal _)) <| .next .comma <|
    .next (Json.tokenSpelling_plain (by decide)) <| .next .closeArray <| .next .comma <|
    .cons line_feed .openObject <| .next (Json.tokenSpelling_plain (by decide)) <|
    .next .colon <| .next (Json.tokenSpelling_plain (by decide)) <| .next .comma <|
    .next (Json.tokenSpelling_plain (by decide)) <| .next .colon <|
    .next (.number (Json.numberLiteral_decimal _)) <| .next .comma <|
    .next (Json.tokenSpelling_plain (by decide)) <| .next .colon <| .next .openArray <|
    .next .openObject <| .next (Json.tokenSpelling_plain (by decide)) <| .next .colon <|
    .next (Json.tokenSpelling_plain (by decide)) <| .next .comma <|
    .next (.string (.cons escaped (.cons letter .nil))) <| .next .colon <|
    .next (Json.tokenSpelling_plain (by decide)) <| .next .closeObject <|
    .next .closeArray <| .next .closeObject <| .next .closeArray <| .next .closeObject <|
    .nil (List.nil_subset _)
  refine cast (congrArg (Json.SequenceSpelling _) ?_) spelled
  decide +kernel

/-- The parameter is a record of the message. -/
theorem hasRecord_twiceNamed : twiceNamedJson.HasRecord .parameter twiceNamed := by
  have rows : Json.Given ["nodes"] twiceNamedJson "nodes" (.array twiceNamedRows) :=
    .member (List.mem_cons_of_mem _ List.mem_cons_self) (Json.textSpelling_plain "nodes")
  have parameters : Json.Given Row.fieldNames twiceNamedRow "parameters" (.array [twiceNamed]) :=
    .member (List.mem_cons_of_mem _ (List.mem_cons_of_mem _ List.mem_cons_self))
      (Json.textSpelling_plain "parameters")
  have row : twiceNamedJson.HasRecord .row twiceNamedRow :=
    .inside .whole List.mem_cons_self rows (List.mem_cons_of_mem _ List.mem_cons_self)
  exact .inside row List.mem_cons_self parameters List.mem_cons_self

/-- The two names are the same text. -/
theorem fault_twiceNamed : RecordKind.parameter.Fault twiceNamed := by
  have escaped : Json.TextSpelling "id" [.code 0x69, .byte 'd'.toUInt8] :=
    ⟨[[.code 0x69], [.byte 'd'.toUInt8]],
      .cons (.code (by decide : 'i'.toNat < 0x10000)) (.cons (.plain 'd') .nil), rfl⟩
  exact .repeated (by decide : "id" ∈ _) (.refl _) (Json.textSpelling_plain "id") escaped

/-- A name given twice is refused though its spellings differ, and a text without a fault gives
its ids. -/
theorem faults_rejected_twiceNamed :
    (twiceNamedJson.Text twiceNamedText.toUTF8.toList ∧
      twiceNamedJson.HasRecord .parameter twiceNamed ∧ RecordKind.parameter.Fault twiceNamed ∧
      decode? twiceNamedText.toUTF8.toList = none) ∧
    decode? twoRowsText.toUTF8.toList = some twoRows ∧
      ∃ (json : Json) (items : List Json), json.Text twoRowsText.toUTF8.toList ∧
        (∀ value, Json.Given ["nodes"] json "nodes" value ↔ value = .array items) ∧
          List.Forall₂ Row.Numbered twoRows.rows items := by
  have decoded : decode? twoRowsText.toUTF8.toList = some twoRows :=
    decode?_eq_some_iff.mpr ⟨twoRowsJson, form_twoRows, text_twoRows⟩
  exact ⟨⟨text_twiceNamed, hasRecord_twiceNamed, fault_twiceNamed,
    faults_rejected.1 _ _ _ _ text_twiceNamed hasRecord_twiceNamed fault_twiceNamed⟩,
    decoded, faults_rejected.2 _ _ decoded⟩

end Message

end Treescribe
