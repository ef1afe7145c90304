import Treescribe.Json.Token

/-!
# Reading JSON values

A value is built from its tokens one by one. What is still open is kept in a
list of frames, so nesting may be as deep as the text is long.
-/

namespace Treescribe.Json

/-- An open container around the value being read, with what it holds so far,
latest first. -/
inductive Frame where
  | item (items : List Json)
  | member (members : List (List StringUnit × Json)) (name : List StringUnit)

/-- What may come next, inside which open containers. -/
inductive ParserState where
  /-- A value. -/
  | needsValue (outer : List Frame)
  /-- The first item of an array, or its end. -/
  | arrayStart (outer : List Frame)
  /-- A comma behind an item, or the end of the array. -/
  | arrayNext (items : List Json) (outer : List Frame)
  /-- The first name of an object, or its end. -/
  | objectStart (outer : List Frame)
  /-- The name of another member. -/
  | objectName (members : List (List StringUnit × Json)) (outer : List Frame)
  /-- The colon behind a name. -/
  | objectColon (members : List (List StringUnit × Json)) (name : List StringUnit)
      (outer : List Frame)
  /-- A comma behind a member, or the end of the object. -/
  | objectNext (members : List (List StringUnit × Json)) (outer : List Frame)
  /-- Nothing: the value is complete. -/
  | done (value : Json)

namespace ParserState

/-- A complete value takes its place in the innermost open container. -/
def place (value : Json) : List Frame → ParserState
  | [] => .done value
  | .item items :: outer => .arrayNext (value :: items) outer
  | .member members name :: outer => .objectNext ((name, value) :: members) outer

/-- The first token of a value. -/
def begin? (outer : List Frame) : Token → Option ParserState
  | .openArray => some (.arrayStart outer)
  | .openObject => some (.objectStart outer)
  | .null => some (place .null outer)
  | .bool value => some (place (.bool value) outer)
  | .number literal => some (place (.number literal) outer)
  | .string units => some (place (.string units) outer)
  | _ => none

/-- The state after one more token. -/
def step? (state : ParserState) (token : Token) : Option ParserState :=
  match state, token with
  | .needsValue outer, token => begin? outer token
  | .arrayStart outer, .closeArray => some (place (.array []) outer)
  | .arrayStart outer, token => begin? (.item [] :: outer) token
  | .arrayNext items outer, .comma => some (.needsValue (.item items :: outer))
  | .arrayNext items outer, .closeArray => some (place (.array items.reverse) outer)
  | .objectStart outer, .closeObject => some (place (.object []) outer)
  | .objectStart outer, .string name => some (.objectColon [] name outer)
  | .objectName members outer, .string name => some (.objectColon members name outer)
  | .objectColon members name outer, .colon => some (.needsValue (.member members name :: outer))
  | .objectNext members outer, .comma => some (.objectName members outer)
  | .objectNext members outer, .closeObject => some (place (.object members.reverse) outer)
  | _, _ => none

/-- The value of a complete reading. -/
def value? : ParserState → Option Json
  | .done value => some value
  | _ => none

end ParserState

/-- The value that tokens spell, all of them used. -/
def ofTokens? (tokens : List Token) : Option Json := do
  let state ← tokens.foldlM ParserState.step? (.needsValue [])
  state.value?

/-- The value that a text spells, with nothing but white space around it. -/
def parse? (bytes : List UInt8) : Option Json :=
  (tokens? bytes).bind ofTokens?

end Treescribe.Json
