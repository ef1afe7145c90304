import Mathlib.Data.List.Forall2
import Treescribe.Json.Token

/-!
# The grammar of JSON texts

A JSON text is a sequence of tokens with white space before, between and behind them. Each kind
of token has its spellings, and a value has one sequence of tokens: `Json.Text` joins the two.
Nothing here is read byte by byte. What a string stands for is no matter of the grammar,
so only the units of a string are spelled here.
-/

namespace Treescribe

namespace Json

/-- The bytes of white space: blank, tab, line feed and carriage return. -/
def whiteSpace : List UInt8 :=
  [' '.toUInt8, '\t'.toUInt8, '\n'.toUInt8, '\r'.toUInt8]

/-- One decimal digit or more. -/
def Digits (bytes : List UInt8) : Prop :=
  bytes ≠ [] ∧ ∀ byte ∈ bytes, isDigit byte

instance (bytes : List UInt8) : Decidable (Digits bytes) :=
  decidable_of_iff (bytes ≠ [] ∧ bytes.all isDigit) (and_congr_right fun _ => List.all_eq_true)

/-- The whole part of a number: zero, or digits that do not start with it. -/
inductive WholePart : List UInt8 → Prop where
  | zero : WholePart ['0'.toUInt8]
  | digits {first : UInt8} {rest : List UInt8} (nonzero : first ≠ '0'.toUInt8)
      (digits : Digits (first :: rest)) : WholePart (first :: rest)

/-- The fraction of a number, or nothing. -/
inductive FractionPart : List UInt8 → Prop where
  | absent : FractionPart []
  | digits {bytes : List UInt8} (digits : Digits bytes) : FractionPart ('.'.toUInt8 :: bytes)

/-- The exponent of a number, or nothing. -/
inductive ExponentPart : List UInt8 → Prop where
  | absent : ExponentPart []
  | digits {mark : UInt8} {sign bytes : List UInt8}
      (marked : mark ∈ ['e'.toUInt8, 'E'.toUInt8])
      (signed : sign ∈ [[], ['+'.toUInt8], ['-'.toUInt8]]) (digits : Digits bytes) :
      ExponentPart (mark :: sign ++ bytes)

/-- A number: a whole part behind an optional minus sign, with an optional fraction and an
optional exponent. -/
inductive NumberLiteral : List UInt8 → Prop where
  | parts {sign whole fraction exponent : List UInt8} (signed : sign ∈ [[], ['-'.toUInt8]])
      (whole_part : WholePart whole) (fraction_part : FractionPart fraction)
      (exponent_part : ExponentPart exponent) :
      NumberLiteral (sign ++ (whole ++ (fraction ++ exponent)))

/-- The letters of the short escapes, each with the byte that it stands for. -/
def shortEscapes : List (UInt8 × UInt8) :=
  [('"'.toUInt8, '"'.toUInt8), ('\\'.toUInt8, '\\'.toUInt8), ('/'.toUInt8, '/'.toUInt8),
    ('b'.toUInt8, 0x08), ('f'.toUInt8, 0x0C), ('n'.toUInt8, 0x0A), ('r'.toUInt8, 0x0D),
    ('t'.toUInt8, 0x09)]

/-- A hexadecimal digit of either case, with its value. -/
def HexDigit (byte : UInt8) (value : Nat) : Prop :=
  value < 16 ∧ (byte = value.digitChar.toUInt8 ∨ byte = value.digitChar.toUpper.toUInt8)

instance (byte : UInt8) (value : Nat) : Decidable (HexDigit byte value) :=
  inferInstanceAs (Decidable (_ ∧ _))

/-- The spellings of a string unit. A quote, a backslash and a control character never
stand for themselves. -/
inductive UnitSpelling : StringUnit → List UInt8 → Prop where
  | byte {value : UInt8} (visible : 0x20 ≤ value) (unquoted : value ≠ '"'.toUInt8)
      (unescaped : value ≠ '\\'.toUInt8) : UnitSpelling (.byte value) [value]
  | short {letter value : UInt8} (listed : (letter, value) ∈ shortEscapes) :
      UnitSpelling (.short value) ['\\'.toUInt8, letter]
  | code {first second third fourth : UInt8} {a b c d : Nat} (first_digit : HexDigit first a)
      (second_digit : HexDigit second b) (third_digit : HexDigit third c)
      (fourth_digit : HexDigit fourth d) :
      UnitSpelling (.code (((a * 16 + b) * 16 + c) * 16 + d))
        ['\\'.toUInt8, 'u'.toUInt8, first, second, third, fourth]

/-- The spellings of a token. -/
inductive TokenSpelling : Token → List UInt8 → Prop where
  | openArray : TokenSpelling .openArray ['['.toUInt8]
  | closeArray : TokenSpelling .closeArray [']'.toUInt8]
  | openObject : TokenSpelling .openObject ['\x7b'.toUInt8]
  | closeObject : TokenSpelling .closeObject ['\x7d'.toUInt8]
  | comma : TokenSpelling .comma [','.toUInt8]
  | colon : TokenSpelling .colon [':'.toUInt8]
  | null : TokenSpelling .null ("null".toList.map Char.toUInt8)
  | bool (value : Bool) :
      TokenSpelling (.bool value) ((toString value).toList.map Char.toUInt8)
  | number {literal : List UInt8} (wellFormed : NumberLiteral literal) :
      TokenSpelling (.number literal) literal
  | string {units : List StringUnit} {pieces : List (List UInt8)}
      (spelled : List.Forall₂ UnitSpelling units pieces) :
      TokenSpelling (.string units) ('"'.toUInt8 :: (pieces.flatten ++ ['"'.toUInt8]))

/-- The spellings of a sequence of tokens, with white space before, between and behind them. -/
inductive SequenceSpelling : List Token → List UInt8 → Prop where
  | nil {space : List UInt8} (blank : space ⊆ whiteSpace) : SequenceSpelling [] space
  | cons {space bytes rest : List UInt8} {token : Token} {later : List Token}
      (blank : space ⊆ whiteSpace) (spelled : TokenSpelling token bytes)
      (sequence : SequenceSpelling later rest) :
      SequenceSpelling (token :: later) (space ++ (bytes ++ rest))

/-- A token may follow without white space. -/
theorem SequenceSpelling.next {token : Token} {later : List Token} {bytes rest : List UInt8}
    (spelled : TokenSpelling token bytes) (sequence : SequenceSpelling later rest) :
    SequenceSpelling (token :: later) (bytes ++ rest) :=
  .cons (List.nil_subset _) spelled sequence

mutual

/-- The tokens of a value. -/
def tokens : Json → List Token
  | .null => [.null]
  | .bool value => [.bool value]
  | .number literal => [.number literal]
  | .string units => [.string units]
  | .array items => .openArray :: (List.intercalate [.comma] (itemTokens items) ++ [.closeArray])
  | .object members =>
    .openObject :: (List.intercalate [.comma] (memberTokens members) ++ [.closeObject])

/-- The tokens of each item of an array. -/
def itemTokens : List Json → List (List Token)
  | [] => []
  | item :: rest => tokens item :: itemTokens rest

/-- The tokens of each member of an object: its name, a colon and its value. -/
def memberTokens : List (List StringUnit × Json) → List (List Token)
  | [] => []
  | (name, value) :: rest => (.string name :: .colon :: tokens value) :: memberTokens rest

end

/-- The texts of a value: the spellings of its tokens. -/
def Text (json : Json) (bytes : List UInt8) : Prop :=
  SequenceSpelling json.tokens bytes

/-- The tokens of the items are those of each item. -/
theorem itemTokens_eq_map (items : List Json) : itemTokens items = items.map tokens := by
  induction items with
  | nil => rw [itemTokens, List.map_nil]
  | cons item rest inductionHypothesis => rw [itemTokens, List.map_cons, inductionHypothesis]

/-- The tokens of the members are those of each member. -/
theorem memberTokens_eq_map (members : List (List StringUnit × Json)) :
    memberTokens members =
      members.map fun member => .string member.1 :: .colon :: member.2.tokens := by
  induction members with
  | nil => rw [memberTokens, List.map_nil]
  | cons member rest inductionHypothesis =>
    rw [memberTokens, List.map_cons, inductionHypothesis]

/-- In a list with commas between, each part but the first stands behind a comma. -/
theorem intercalate_comma_cons (first : List Token) (others : List (List Token)) :
    List.intercalate [.comma] (first :: others) = first ++ others.flatMap (.comma :: ·) := by
  induction others generalizing first with
  | nil => simp
  | cons second rest inductionHypothesis =>
    rw [List.intercalate_cons_cons, inductionHypothesis, List.flatMap_cons]
    simp

/-- The values directly inside a value. -/
def parts : Json → List Json
  | .array items => items
  | .object members => members.map Prod.snd
  | _ => []

mutual

/-- What holds of a value whenever it holds of its parts holds of every value. -/
theorem byParts {motive : Json → Prop}
    (step : ∀ json : Json, (∀ part ∈ json.parts, motive part) → motive json) :
    (json : Json) → motive json
  | .null => step .null (by simp [parts])
  | .bool value => step (.bool value) (by simp [parts])
  | .number literal => step (.number literal) (by simp [parts])
  | .string units => step (.string units) (by simp [parts])
  | .array items => step (.array items) (byItems step items)
  | .object members => step (.object members) (byMembers step members)

/-- What holds of a value whenever it holds of its parts holds of the items of an array. -/
theorem byItems {motive : Json → Prop}
    (step : ∀ json : Json, (∀ part ∈ json.parts, motive part) → motive json) :
    (items : List Json) → ∀ item ∈ items, motive item
  | [] => by simp
  | first :: rest => by
    intro item member
    rcases List.mem_cons.mp member with same | member
    · exact same ▸ byParts step first
    · exact byItems step rest item member

/-- What holds of a value whenever it holds of its parts holds of the values of an
object. -/
theorem byMembers {motive : Json → Prop}
    (step : ∀ json : Json, (∀ part ∈ json.parts, motive part) → motive json) :
    (members : List (List StringUnit × Json)) → ∀ value ∈ members.map Prod.snd, motive value
  | [] => by simp
  | (name, first) :: rest => by
    intro value member
    rcases List.mem_cons.mp member with same | member
    · exact same ▸ byParts step first
    · exact byMembers step rest value member

end

end Json

end Treescribe
