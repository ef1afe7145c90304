import Treescribe.Json.Parser
import Treescribe.Message.Basic

/-!
# Decoding messages

A record of a message is a JSON object with its fields as members, in any order
and with any others between, or a JSON array of its fields in their order, from
which the last ones may be missing.
-/

namespace Treescribe

namespace Json

/-- The known fields of a record that are present, by name. A known field may
not be given twice, and an array may not hold more than the fields. Every name
in an object has to be a text, known or not. -/
def fields? (names : List String) : Json → Option (List (String × Json))
  | .array items => if items.length ≤ names.length then some (names.zip items) else none
  | .object members => do
    let named ← members.mapM fun member => (text? member.1).map (·, member.2)
    let known := named.filter fun field => names.contains field.1
    if (known.map Prod.fst).Nodup then some known else none
  | _ => none

/-- The value of a field that has to be present. -/
def required? {α : Type} (fields : List (String × Json)) (name : String)
    (decode? : Json → Option α) : Option α :=
  (fields.lookup name).bind decode?

/-- The value of a field that has a default. -/
def field? {α : Type} (fields : List (String × Json)) (name : String) (default : α)
    (decode? : Json → Option α) : Option α :=
  match fields.lookup name with
  | some value => decode? value
  | none => some default

/-- A text. -/
def string? : Json → Option String
  | .string units => text? units
  | _ => none

/-- A truth value. -/
def bool? : Json → Option Bool
  | .bool value => some value
  | _ => none

/-- A list of values of one type. -/
def list? {α : Type} (decode? : Json → Option α) : Json → Option (List α)
  | .array items => items.mapM decode?
  | _ => none

/-- A value that `null` leaves out. -/
def optional? {α : Type} (decode? : Json → Option α) : Json → Option (Option α)
  | .null => some none
  | value => (decode? value).map some

/-- An id: a plain row of digits whose number fits into 64 bits. -/
def id? : Json → Option UInt64
  | .number literal =>
    if literal.all isDigit && digitsValue literal < UInt64.size then
      some (UInt64.ofNat (digitsValue literal))
    else none
  | _ => none

end Json

namespace Parameter

/-- The fields of a parameter, in order. -/
def fieldNames : List String := ["id", "type", "value"]

/-- Decodes a parameter. -/
def ofJson? (json : Json) : Option Parameter := do
  let fields ← json.fields? fieldNames
  return {
    name := ← Json.required? fields "id" Json.string?
    type := ← Json.field? fields "type" none (Json.optional? Json.string?)
    default := ← Json.field? fields "value" none (Json.optional? Json.string?) }

end Parameter

namespace Segment

/-- The fields of a segment, in order. -/
def fieldNames : List String := ["id", "arguments"]

/-- Decodes a segment. -/
def ofJson? (json : Json) : Option Segment := do
  let fields ← json.fields? fieldNames
  return {
    name := ← Json.required? fields "id" Json.string?
    arguments :=
      ← Json.field? fields "arguments" none (Json.optional? (Json.list? Json.string?)) }

end Segment

namespace Row

/-- The fields of a row, in order. -/
def fieldNames : List String :=
  ["id", "parentId", "kind", "ids", "type", "value", "values", "text", "println", "parameters",
    "segments"]

/-- Decodes a row. -/
def ofJson? (json : Json) : Option Row := do
  let fields ← json.fields? fieldNames
  return {
    id := ← Json.required? fields "id" Json.id?
    parent := ← Json.field? fields "parentId" 0 Json.id?
    kind := ← Json.required? fields "kind" Json.string?
    names := ← Json.field? fields "ids" [] (Json.list? Json.string?)
    type := ← Json.field? fields "type" none (Json.optional? Json.string?)
    value := ← Json.field? fields "value" none (Json.optional? Json.string?)
    values := ← Json.field? fields "values" [] (Json.list? Json.string?)
    text := ← Json.field? fields "text" none (Json.optional? Json.string?)
    newline := ← Json.field? fields "println" false Json.bool?
    parameters := ← Json.field? fields "parameters" [] (Json.list? Parameter.ofJson?)
    segments := ← Json.field? fields "segments" [] (Json.list? Segment.ofJson?) }

end Row

namespace Message

/-- Decodes a message. -/
def ofJson? (json : Json) : Option Message := do
  let fields ← json.fields? ["nodes"]
  return { rows := ← Json.required? fields "nodes" (Json.list? Row.ofJson?) }

/-- The message that a text holds, if it is one. -/
def decode? (bytes : List UInt8) : Option Message :=
  (Json.parse? bytes).bind ofJson?

end Message

end Treescribe
