import Mathlib.Data.List.TakeWhile
import Treescribe.Proofs.Json.Parsing

/-!
# What is read is a text

Only the texts of a value are read as that value. The lexer never loses a byte: what it has
read is a spelling of its tokens, followed by the part of a token that it has begun. The
parser never loses a token: those it has read are the ones in front of the place where it
stands. With the converse, a text is read as a value exactly when the grammar says so.
-/

namespace Treescribe

namespace Json

section Numbers

/-- Where a digit comes first, the digits up to the first other byte are one or more. -/
theorem digits_takeWhile {bytes : List UInt8} (starts : bytes.head?.any isDigit) :
    Digits (bytes.takeWhile isDigit) := by
  refine ⟨?_, fun byte member => List.mem_takeWhile_imp member⟩
  cases bytes with
  | nil => cases starts
  | cons first rest =>
    have digit : isDigit first := starts
    rw [List.takeWhile_cons_of_pos digit]
    exact List.cons_ne_nil _ _

/-- What is accepted as an exponent is one. -/
theorem exponentPart_of_isExponent {bytes : List UInt8} (accepted : isExponent bytes) :
    ExponentPart bytes := by
  cases bytes with
  | nil => exact .absent
  | cons mark rest =>
    cases rest with
    | nil => simp [isExponent] at accepted
    | cons sign digits =>
      simp only [isExponent, Bool.and_eq_true, Bool.not_eq_true', List.isEmpty_eq_false_iff,
        List.all_eq_true] at accepted
      obtain ⟨⟨marked, nonempty⟩, all⟩ := accepted
      have marked : mark ∈ ['e'.toUInt8, 'E'.toUInt8] := by simpa using marked
      by_cases signed : (sign == '+'.toUInt8 || sign == '-'.toUInt8) = true
      · rw [if_pos signed] at nonempty all
        have listed : [sign] ∈ [[], ['+'.toUInt8], ['-'.toUInt8]] := by simpa using signed
        exact .digits marked listed ⟨nonempty, all⟩
      · rw [if_neg signed] at nonempty all
        exact .digits marked List.mem_cons_self ⟨nonempty, all⟩

/-- What is accepted behind the whole part of a number is a fraction and an exponent. -/
theorem exists_of_isFraction {bytes : List UInt8} (accepted : isFraction bytes) :
    ∃ fraction exponent, bytes = fraction ++ exponent ∧ FractionPart fraction ∧
      ExponentPart exponent := by
  cases bytes with
  | nil => exact ⟨[], [], rfl, .absent, .absent⟩
  | cons mark rest =>
    rw [isFraction] at accepted
    by_cases point : (mark == '.'.toUInt8) = true
    · rw [if_pos point, Bool.and_eq_true] at accepted
      rw [eq_of_beq point]
      refine ⟨_, _, ?_, .digits (digits_takeWhile accepted.1),
        exponentPart_of_isExponent accepted.2⟩
      rw [List.cons_append, List.takeWhile_append_dropWhile]
    · rw [if_neg point] at accepted
      exact ⟨[], _, rfl, .absent, exponentPart_of_isExponent accepted⟩

/-- What is accepted as a number without its sign has the parts of one. -/
theorem exists_of_isUnsignedNumber {bytes : List UInt8} (accepted : isUnsignedNumber bytes) :
    ∃ whole fraction exponent, bytes = whole ++ (fraction ++ exponent) ∧ WholePart whole ∧
      FractionPart fraction ∧ ExponentPart exponent := by
  cases bytes with
  | nil => cases accepted
  | cons first rest =>
    rw [isUnsignedNumber] at accepted
    by_cases zero : (first == '0'.toUInt8) = true
    · rw [if_pos zero] at accepted
      obtain ⟨fraction, exponent, rfl, parts⟩ := exists_of_isFraction accepted
      rw [eq_of_beq zero]
      exact ⟨_, fraction, exponent, rfl, .zero, parts⟩
    · rw [if_neg zero, Bool.and_eq_true] at accepted
      obtain ⟨digit, accepted⟩ := accepted
      obtain ⟨fraction, exponent, behind, parts⟩ := exists_of_isFraction accepted
      have digits : Digits (first :: rest.takeWhile isDigit) := by
        have starts : (first :: rest).head?.any isDigit := digit
        have all := digits_takeWhile starts
        rwa [List.takeWhile_cons_of_pos digit] at all
      refine ⟨_, fraction, exponent, ?_, .digits (by simpa using zero) digits, parts⟩
      rw [← behind, List.cons_append, List.takeWhile_append_dropWhile]

/-- What is accepted as a number is one of the grammar. -/
theorem numberLiteral_of_isNumber {literal : List UInt8} (accepted : isNumber literal) :
    NumberLiteral literal := by
  cases literal with
  | nil => cases accepted
  | cons first rest =>
    rw [isNumber] at accepted
    by_cases minus : (first == '-'.toUInt8) = true
    · rw [if_pos minus] at accepted
      obtain ⟨whole, fraction, exponent, rfl, whole_part, fraction_part, exponent_part⟩ :=
        exists_of_isUnsignedNumber accepted
      rw [eq_of_beq minus]
      exact .parts (List.mem_cons_of_mem _ List.mem_cons_self) whole_part fraction_part
        exponent_part
    · rw [if_neg minus] at accepted
      obtain ⟨whole, fraction, exponent, same, whole_part, fraction_part, exponent_part⟩ :=
        exists_of_isUnsignedNumber accepted
      rw [same]
      exact .parts List.mem_cons_self whole_part fraction_part exponent_part

end Numbers

/-- A word that is accepted spells its token. -/
theorem tokenSpelling_of_word? {letters : List UInt8} {token : Token}
    (word : word? letters = some token) : TokenSpelling token letters := by
  have null : "null".toUTF8.toList = "null".toList.map Char.toUInt8 := by decide +kernel
  have bool (value : Bool) :
      (toString value).toUTF8.toList = (toString value).toList.map Char.toUInt8 := by
    cases value <;> decide +kernel
  rw [word?] at word
  split_ifs at word with is_null is_true is_false
  · cases word
    rw [is_null, null]
    exact .null
  · cases word
    exact (is_true.trans (bool true)) ▸ .bool true
  · cases word
    exact (is_false.trans (bool false)) ▸ .bool false

/-- A byte that is a token spells it. -/
theorem tokenSpelling_of_punctuation? {byte : UInt8} {token : Token}
    (mark : punctuation? byte = some token) : TokenSpelling token [byte] := by
  simp only [punctuation?, beq_iff_eq] at mark
  split_ifs at mark with h₁ h₂ h₃ h₄ h₅ h₆ <;> cases mark <;> subst byte
  · exact .openArray
  · exact .closeArray
  · exact .openObject
  · exact .closeObject
  · exact .comma
  · exact .colon

/-- What holds of the 256 codes holds of every byte. -/
theorem byCode {motive : UInt8 → Prop} (each : ∀ code < 256, motive (UInt8.ofNat code))
    (byte : UInt8) : motive byte := by
  have here := each byte.toNat byte.toNat_lt
  rwa [UInt8.ofNat_toNat] at here

/-- A byte with a hexadecimal value is a digit of that value. -/
theorem hexDigit_of_hexValue? : ∀ byte, ∀ value ∈ hexValue? byte, HexDigit byte value :=
  byCode (by decide +kernel)

/-- A letter with a short escape is listed. -/
theorem mem_of_shortEscape? {letter value : UInt8} (has : shortEscape? letter = some value) :
    (letter, value) ∈ shortEscapes := by
  simp only [shortEscape?, beq_iff_eq, Bool.or_eq_true] at has
  split_ifs at has with h₁ h₂ h₃ h₄ h₅ h₆ <;> cases has
  · rcases h₁ with (rfl | rfl) | rfl <;> decide
  all_goals subst letter; decide

/-- Spellings side by side spell the tokens of both. -/
theorem SequenceSpelling.append {left right : List Token} {front behind : List UInt8}
    (first : SequenceSpelling left front) (second : SequenceSpelling right behind) :
    SequenceSpelling (left ++ right) (front ++ behind) := by
  induction first with
  | @nil space blank =>
    cases second with
    | nil more_blank => exact .nil (List.append_subset.mpr ⟨blank, more_blank⟩)
    | cons more_blank spelled sequence =>
      rw [← List.append_assoc]
      exact .cons (List.append_subset.mpr ⟨blank, more_blank⟩) spelled sequence
  | cons blank spelled _ inductionHypothesis =>
    rw [List.append_assoc, List.append_assoc]
    exact .cons blank spelled inductionHypothesis

/-- A token alone. -/
theorem TokenSpelling.sequence {token : Token} {bytes : List UInt8}
    (spelled : TokenSpelling token bytes) : SequenceSpelling [token] bytes := by
  have alone := SequenceSpelling.next spelled (.nil (List.nil_subset _))
  rwa [List.append_nil] at alone

/-- The bytes of a token that is begun: those it has so far. -/
inductive Begun : LexerMode → List UInt8 → Prop where
  | between : Begun .between []
  | inString {units : List StringUnit} {pieces : List (List UInt8)}
      (spelled : List.Forall₂ UnitSpelling units.reverse pieces) :
      Begun (.inString units) ('"'.toUInt8 :: pieces.flatten)
  | inEscape {units : List StringUnit} {pieces : List (List UInt8)}
      (spelled : List.Forall₂ UnitSpelling units.reverse pieces) :
      Begun (.inEscape units) ('"'.toUInt8 :: (pieces.flatten ++ ['\\'.toUInt8]))
  | inCode {units : List StringUnit} {pieces : List (List UInt8)} {digits : List UInt8}
      {values : List Nat} {missing value : Nat}
      (spelled : List.Forall₂ UnitSpelling units.reverse pieces)
      (hexadecimal : List.Forall₂ HexDigit digits values)
      (number : value = values.foldl (fun number digit => number * 16 + digit) 0)
      (complete : digits.length + missing = 4) (open_end : 0 < missing) :
      Begun (.inCode units missing value)
        ('"'.toUInt8 :: (pieces.flatten ++ '\\'.toUInt8 :: 'u'.toUInt8 :: digits))
  | inNumber (bytes : List UInt8) : Begun (.inNumber bytes) bytes.reverse
  | inWord (letters : List UInt8) : Begun (.inWord letters) letters.reverse

/-- Four hexadecimal digits behind the mark of a code unit spell it. -/
theorem unitSpelling_of_digits {digits : List UInt8} {values : List Nat}
    (hexadecimal : List.Forall₂ HexDigit digits values) (four : digits.length = 4) :
    UnitSpelling (.code (values.foldl (fun number digit => number * 16 + digit) 0))
      ('\\'.toUInt8 :: 'u'.toUInt8 :: digits) := by
  match digits, values, hexadecimal with
  | [_, _, _, _], [a, b, c, d], .cons first (.cons second (.cons third (.cons fourth .nil))) =>
    have spelled := UnitSpelling.code first second third fourth
    have number : ((a * 16 + b) * 16 + c) * 16 + d =
        [a, b, c, d].foldl (fun number digit => number * 16 + digit) 0 := by simp
    rwa [number] at spelled

namespace Lexer

/-- A reading accounts for bytes: they spell its tokens, up to the part of a token that is
begun. -/
def Covers (lexer : Lexer) (bytes : List UInt8) : Prop :=
  ∃ spelled begun, bytes = spelled ++ begun ∧
    SequenceSpelling lexer.tokens.reverse spelled ∧ Begun lexer.mode begun

/-- With one more token, a reading accounts for the spelling of the token too. -/
theorem covers_emit {lexer : Lexer} {token : Token} {spelled bytes : List UInt8}
    (sequence : SequenceSpelling lexer.tokens.reverse spelled)
    (last : TokenSpelling token bytes) : (lexer.emit token).Covers (spelled ++ bytes) := by
  refine ⟨spelled ++ bytes, [], (List.append_nil _).symm, ?_, .between⟩
  rw [emit, List.reverse_cons]
  exact sequence.append last.sequence

/-- Completing a number or word changes nothing about the bytes. -/
theorem Covers.settle {lexer settled : Lexer} {bytes : List UInt8} (covers : lexer.Covers bytes)
    (settles : lexer.settle? = some settled) : settled.Covers bytes ∧ settled.mode = .between := by
  obtain ⟨tokens, mode⟩ := lexer
  refine ⟨?_, (feed?_of_settle? settles).1⟩
  obtain ⟨spelled, begun, rfl, sequence, begins⟩ := covers
  cases begins with
  | between =>
    cases settles
    exact ⟨spelled, [], rfl, sequence, .between⟩
  | inNumber bytes =>
    obtain ⟨accepted, same⟩ := Option.ite_none_right_eq_some.mp settles
    cases same
    exact covers_emit sequence (.number (numberLiteral_of_isNumber accepted))
  | inWord letters =>
    obtain ⟨token, word, rfl⟩ := Option.map_eq_some_iff.mp settles
    exact covers_emit sequence (tokenSpelling_of_word? word)
  | _ => cases settles

/-- Between tokens, a byte that starts something new is accounted for. -/
theorem Covers.begin {lexer next : Lexer} {bytes : List UInt8} {byte : UInt8}
    (covers : lexer.Covers bytes) (between : lexer.mode = .between)
    (begins : lexer.begin? byte = some next) : next.Covers (bytes ++ [byte]) := by
  obtain ⟨tokens, mode⟩ := lexer
  cases between
  obtain ⟨spelled, _, rfl, sequence, ⟨⟩⟩ := covers
  rw [List.append_nil]
  simp only [begin?] at begins
  split_ifs at begins with space quote number letter
  · cases begins
    have blank : [byte] ⊆ whiteSpace := by
      rw [isSpace] at space
      simpa [whiteSpace, or_assoc] using space
    refine ⟨spelled ++ [byte], [], (List.append_nil _).symm, ?_, .between⟩
    have longer := sequence.append (.nil blank)
    rwa [List.append_nil] at longer
  · cases begins
    rw [eq_of_beq quote]
    have no_units : List.Forall₂ UnitSpelling [].reverse [] := .nil
    exact ⟨spelled, _, rfl, sequence, .inString no_units⟩
  · cases begins
    exact ⟨spelled, _, rfl, sequence, .inNumber [byte]⟩
  · cases begins
    exact ⟨spelled, _, rfl, sequence, .inWord [byte]⟩
  · obtain ⟨token, mark, rfl⟩ := Option.map_eq_some_iff.mp begins
    exact covers_emit sequence (tokenSpelling_of_punctuation? mark)

/-- Another unit inside a string. -/
theorem begun_unit {units : List StringUnit} {unit : StringUnit} {pieces : List (List UInt8)}
    {bytes : List UInt8} (spelled : List.Forall₂ UnitSpelling units.reverse pieces)
    (last : UnitSpelling unit bytes) :
    Begun (.inString (unit :: units)) ('"'.toUInt8 :: (pieces.flatten ++ bytes)) := by
  have longer : List.Forall₂ UnitSpelling (unit :: units).reverse (pieces ++ [bytes]) := by
    rw [List.reverse_cons]
    exact List.rel_append spelled (.cons last .nil)
  have begun := Begun.inString longer
  rwa [List.flatten_append, List.flatten_singleton] at begun

/-- Another digit of a code unit: the last one completes the unit. -/
theorem begun_code {units : List StringUnit} {pieces : List (List UInt8)} {digits : List UInt8}
    {values : List Nat} {missing value digit : Nat} {byte : UInt8}
    (spelled : List.Forall₂ UnitSpelling units.reverse pieces)
    (hexadecimal : List.Forall₂ HexDigit digits values)
    (number : value = values.foldl (fun number digit => number * 16 + digit) 0)
    (complete : digits.length + missing = 4) (open_end : 0 < missing)
    (has : hexValue? byte = some digit) :
    Begun
      (if missing ≤ 1 then .inString (.code (value * 16 + digit) :: units)
        else .inCode units (missing - 1) (value * 16 + digit))
      ('"'.toUInt8 :: (pieces.flatten ++
        '\\'.toUInt8 :: 'u'.toUInt8 :: (digits ++ [byte]))) := by
  have longer : List.Forall₂ HexDigit (digits ++ [byte]) (values ++ [digit]) :=
    List.rel_append hexadecimal (.cons (hexDigit_of_hexValue? byte digit has) .nil)
  have next : value * 16 + digit =
      (values ++ [digit]).foldl (fun number digit => number * 16 + digit) 0 := by
    rw [List.foldl_append, ← number]
    rfl
  have length : (digits ++ [byte]).length = digits.length + 1 := List.length_append
  by_cases last : missing ≤ 1
  · rw [if_pos last, next]
    exact begun_unit spelled (unitSpelling_of_digits longer (by omega))
  · rw [if_neg last]
    exact .inCode spelled longer next (by omega) (by omega)

/-- A byte inside a token, or behind it, is accounted for. -/
theorem Covers.feed {lexer next : Lexer} {bytes : List UInt8} {byte : UInt8}
    (covers : lexer.Covers bytes) (feeds : lexer.feed? byte = some next) :
    next.Covers (bytes ++ [byte]) := by
  obtain ⟨tokens, mode⟩ := lexer
  -- The byte ends a number or word, or it belongs to the token that is begun.
  have settled_begins {settled : Lexer} (settles : settle? ⟨tokens, mode⟩ = some settled)
      (begins : settled.begin? byte = some next) : next.Covers (bytes ++ [byte]) := by
    obtain ⟨still_covers, between⟩ := covers.settle settles
    exact still_covers.begin between begins
  obtain ⟨spelled, begun, rfl, sequence, begins⟩ := covers
  have grown {mode : LexerMode} (more : Begun mode (begun ++ [byte])) :
      Covers ⟨tokens, mode⟩ (spelled ++ begun ++ [byte]) :=
    ⟨spelled, begun ++ [byte], List.append_assoc _ _ _, sequence, more⟩
  cases begins with
  | between => exact settled_begins rfl feeds
  | @inString units pieces units_spelled =>
    simp only [feed?] at feeds
    split_ifs at feeds with quote backslash control
    · cases feeds
      rw [List.append_assoc, eq_of_beq quote]
      exact covers_emit sequence (.string units_spelled)
    · cases feeds
      rw [eq_of_beq backslash] at grown ⊢
      exact grown (.inEscape units_spelled)
    · cases feeds
      exact grown (begun_unit units_spelled
        (.byte (UInt8.not_lt.mp control) (by simpa using quote) (by simpa using backslash)))
  | @inEscape units pieces units_spelled =>
    simp only [feed?] at feeds
    split_ifs at feeds with code
    · cases feeds
      rw [eq_of_beq code] at grown ⊢
      apply grown
      rw [List.cons_append, List.append_assoc]
      exact .inCode units_spelled .nil rfl rfl (by decide)
    · obtain ⟨value, escape, rfl⟩ := Option.map_eq_some_iff.mp feeds
      apply grown
      rw [List.cons_append, List.append_assoc]
      exact begun_unit units_spelled (.short (mem_of_shortEscape? escape))
  | @inCode units pieces digits values missing value units_spelled hexadecimal number complete
      open_end =>
    obtain ⟨digit, has, rfl⟩ := Option.map_eq_some_iff.mp feeds
    have more := begun_code units_spelled hexadecimal number complete open_end has
    have bytes_next : '"'.toUInt8 :: (pieces.flatten ++ '\\'.toUInt8 :: 'u'.toUInt8 :: digits) ++
        [byte] = '"'.toUInt8 :: (pieces.flatten ++
          '\\'.toUInt8 :: 'u'.toUInt8 :: (digits ++ [byte])) := by simp
    rw [← bytes_next] at more
    by_cases last : missing ≤ 1
    · simp only [if_pos last] at more ⊢
      exact grown more
    · simp only [if_neg last] at more ⊢
      exact grown more
  | inNumber bytes =>
    simp only [feed?] at feeds
    split_ifs at feeds with numeric
    · cases feeds
      apply grown
      rw [← List.reverse_cons]
      exact .inNumber (byte :: bytes)
    · obtain ⟨settled, settles, begins⟩ := Option.bind_eq_some_iff.mp feeds
      exact settled_begins settles begins
  | inWord letters =>
    simp only [feed?] at feeds
    split_ifs at feeds with letter
    · cases feeds
      apply grown
      rw [← List.reverse_cons]
      exact .inWord (byte :: letters)
    · obtain ⟨settled, settles, begins⟩ := Option.bind_eq_some_iff.mp feeds
      exact settled_begins settles begins

/-- All bytes of a run are accounted for. -/
theorem Covers.run {lexer last : Lexer} {front bytes : List UInt8} (covers : lexer.Covers front)
    (run : bytes.foldlM feed? lexer = some last) : last.Covers (front ++ bytes) := by
  induction bytes generalizing lexer front with
  | nil =>
    cases run
    rwa [List.append_nil]
  | cons byte rest inductionHypothesis =>
    rw [List.foldlM_cons] at run
    obtain ⟨next, feeds, run⟩ := Option.bind_eq_some_iff.mp run
    have longer := inductionHypothesis (covers.feed feeds) run
    rwa [List.append_assoc] at longer

end Lexer

/-- The tokens that are read are spelled by the bytes. -/
theorem sequenceSpelling_of_tokens? {bytes : List UInt8} {tokens : List Token}
    (read : tokens? bytes = some tokens) : SequenceSpelling tokens bytes := by
  obtain ⟨lexer, run, rest⟩ := Option.bind_eq_some_iff.mp read
  obtain ⟨settled, settles, last⟩ := Option.bind_eq_some_iff.mp rest
  have start : Lexer.Covers {} [] := ⟨[], [], rfl, .nil (List.nil_subset _), .between⟩
  obtain ⟨covers, between⟩ := (start.run run).settle settles
  obtain ⟨tokens, mode⟩ := settled
  cases between
  cases last
  obtain ⟨spelled, _, rfl, sequence, ⟨⟩⟩ := covers
  rwa [List.append_nil]

/-- The last part of a list with commas between stands behind the others, each with its
comma. -/
theorem intercalate_comma_concat (others : List (List Token)) (last : List Token) :
    List.intercalate [.comma] (others ++ [last]) = others.flatMap (· ++ [.comma]) ++ last := by
  induction others with
  | nil => simp
  | cons first rest inductionHypothesis =>
    have nonempty : rest ++ [last] ≠ [] := by simp
    rw [List.cons_append, List.intercalate_cons_of_ne_nil nonempty, inductionHypothesis,
      List.flatMap_cons]
    simp

/-- The tokens of the items held, latest first, each with a comma behind it. -/
def itemsFront (items : List Json) : List Token :=
  .openArray :: (items.reverse.map tokens).flatMap (· ++ [.comma])

/-- The tokens of the members held, latest first, each with a comma behind it. -/
def membersFront (members : List (List StringUnit × Json)) : List Token :=
  .openObject :: (memberTokens members.reverse).flatMap (· ++ [.comma])

/-- The tokens of an open container in front of the value being read. -/
def Frame.front : Frame → List Token
  | .item items => itemsFront items
  | .member members name => membersFront members ++ [.string name, .colon]

namespace ParserState

/-- The tokens of the open containers in front of the value being read. -/
def front (outer : List Frame) : List Token :=
  outer.reverse.flatMap Frame.front

/-- The tokens in front of a value inside one more container. -/
theorem front_cons (frame : Frame) (outer : List Frame) :
    front (frame :: outer) = front outer ++ frame.front := by
  rw [front, List.reverse_cons, List.flatMap_append, List.flatMap_singleton]
  rfl

/-- The tokens that lead to a state: no other ones do. -/
inductive Behind : List Token → ParserState → Prop where
  | needsValue (outer : List Frame) : Behind (front outer) (.needsValue outer)
  | arrayStart (outer : List Frame) : Behind (front outer ++ [.openArray]) (.arrayStart outer)
  | objectStart (outer : List Frame) :
      Behind (front outer ++ [.openObject]) (.objectStart outer)
  | objectName (members : List (List StringUnit × Json)) (outer : List Frame) :
      Behind (front outer ++ membersFront members) (.objectName members outer)
  | objectColon (members : List (List StringUnit × Json)) (name : List StringUnit)
      (outer : List Frame) :
      Behind (front outer ++ (membersFront members ++ [.string name]))
        (.objectColon members name outer)
  /-- Behind a complete value, wherever it has its place. -/
  | placed (value : Json) (outer : List Frame) :
      Behind (front outer ++ value.tokens) (place value outer)

/-- The first token of a value leads on. -/
theorem behind_begin {outer : List Frame} {token : Token} {next : ParserState}
    (begins : begin? outer token = some next) : Behind (front outer ++ [token]) next := by
  cases token with
  | openArray =>
    cases begins
    exact .arrayStart outer
  | openObject =>
    cases begins
    exact .objectStart outer
  | null =>
    cases begins
    exact .placed .null outer
  | bool value =>
    cases begins
    exact .placed (.bool value) outer
  | number literal =>
    cases begins
    exact .placed (.number literal) outer
  | string units =>
    cases begins
    exact .placed (.string units) outer
  | _ => cases begins

/-- One more token behind an item: a comma, or the end of the array. -/
theorem behind_item {value : Json} {items : List Json} {outer : List Frame} {token : Token}
    {next : ParserState} (steps : step? (.arrayNext (value :: items) outer) token = some next) :
    Behind (front (.item items :: outer) ++ value.tokens ++ [token]) next := by
  rw [front_cons, Frame.front]
  cases token with
  | comma =>
    cases steps
    have longer : itemsFront (value :: items) = itemsFront items ++ (value.tokens ++ [.comma]) := by
      simp [itemsFront]
    have behind := Behind.needsValue (.item (value :: items) :: outer)
    rw [front_cons, Frame.front, longer] at behind
    simpa using behind
  | closeArray =>
    cases steps
    have closed : tokens (.array (value :: items).reverse) =
        itemsFront items ++ (value.tokens ++ [.closeArray]) := by
      rw [tokens, itemTokens_eq_map, List.reverse_cons, List.map_append, List.map_singleton,
        intercalate_comma_concat, itemsFront]
      simp
    have behind := Behind.placed (.array (value :: items).reverse) outer
    rw [closed] at behind
    simpa using behind
  | _ => cases steps

/-- One more token behind a member: a comma, or the end of the object. -/
theorem behind_member {value : Json} {members : List (List StringUnit × Json)}
    {name : List StringUnit} {outer : List Frame} {token : Token} {next : ParserState}
    (steps : step? (.objectNext ((name, value) :: members) outer) token = some next) :
    Behind (front (.member members name :: outer) ++ value.tokens ++ [token]) next := by
  rw [front_cons, Frame.front]
  cases token with
  | comma =>
    cases steps
    have longer : membersFront ((name, value) :: members) =
        membersFront members ++ (.string name :: .colon :: (value.tokens ++ [.comma])) := by
      simp [membersFront, memberTokens_eq_map]
    have behind := Behind.objectName ((name, value) :: members) outer
    rw [longer] at behind
    simpa using behind
  | closeObject =>
    cases steps
    have closed : tokens (.object ((name, value) :: members).reverse) =
        membersFront members ++ (.string name :: .colon :: (value.tokens ++ [.closeObject])) := by
      rw [tokens, memberTokens_eq_map, List.reverse_cons, List.map_append, List.map_singleton,
        intercalate_comma_concat, ← memberTokens_eq_map, membersFront]
      simp
    have behind := Behind.placed (.object ((name, value) :: members).reverse) outer
    rw [closed] at behind
    simpa using behind
  | _ => cases steps

/-- One more token leads on. -/
theorem Behind.step {tokens : List Token} {state next : ParserState} {token : Token}
    (behind : Behind tokens state) (steps : step? state token = some next) :
    Behind (tokens ++ [token]) next := by
  cases behind with
  | needsValue outer => exact behind_begin steps
  | arrayStart outer =>
    have first : front (.item [] :: outer) = front outer ++ [.openArray] := front_cons _ _
    cases token with
    | closeArray =>
      cases steps
      have closed := Behind.placed (.array []) outer
      simpa [Json.tokens, itemTokens] using closed
    | _ =>
      rw [← first]
      exact behind_begin steps
  | objectStart outer =>
    cases token with
    | closeObject =>
      cases steps
      have closed := Behind.placed (.object []) outer
      simpa [Json.tokens, memberTokens] using closed
    | string name =>
      cases steps
      have named := Behind.objectColon [] name outer
      simpa [membersFront, memberTokens] using named
    | _ => cases steps
  | objectName members outer =>
    cases token with
    | string name =>
      cases steps
      rw [List.append_assoc]
      exact .objectColon members name outer
    | _ => cases steps
  | objectColon members name outer =>
    cases token with
    | colon =>
      cases steps
      have inside := Behind.needsValue (.member members name :: outer)
      rw [front_cons, Frame.front] at inside
      simpa using inside
    | _ => cases steps
  | placed value outer =>
    -- The innermost open container tells what may follow.
    cases outer with
    | nil => cases steps
    | cons frame outer =>
      cases frame with
      | item items => exact behind_item steps
      | member members name => exact behind_member steps

/-- All tokens of a run lead to its last state. -/
theorem Behind.run {front tokens : List Token} {state last : ParserState}
    (behind : Behind front state) (run : after? state tokens = some last) :
    Behind (front ++ tokens) last := by
  induction tokens generalizing state front with
  | nil =>
    cases run
    rwa [List.append_nil]
  | cons token rest inductionHypothesis =>
    rw [after?, List.foldlM_cons] at run
    obtain ⟨next, steps, run⟩ := Option.bind_eq_some_iff.mp run
    have longer := inductionHypothesis (behind.step steps) run
    rwa [List.append_assoc] at longer

/-- Where a reading is complete, the tokens are those of the value. -/
theorem Behind.tokens_eq {tokens : List Token} {state : ParserState} {json : Json}
    (behind : Behind tokens state) (complete : state.value? = some json) :
    tokens = json.tokens := by
  cases behind with
  | placed value outer =>
    cases outer with
    | nil =>
      cases complete
      rfl
    | cons frame outer => cases frame <;> cases complete
  | _ => cases complete

end ParserState

/-- Only the tokens of a value are read as that value. -/
theorem eq_tokens_of_ofTokens? {tokens : List Token} {json : Json}
    (read : ofTokens? tokens = some json) : tokens = json.tokens := by
  obtain ⟨state, run, complete⟩ := Option.bind_eq_some_iff.mp read
  exact ((ParserState.Behind.needsValue []).run run).tokens_eq complete

/-- A text is read as a value exactly if it is a text of that value. -/
theorem parse?_eq_some_iff {bytes : List UInt8} {json : Json} :
    parse? bytes = some json ↔ json.Text bytes := by
  refine ⟨fun read => ?_, Text.parsed⟩
  obtain ⟨tokens, spelled, read⟩ := Option.bind_eq_some_iff.mp read
  rw [Text, ← eq_tokens_of_ofTokens? read]
  exact sequenceSpelling_of_tokens? spelled

end Json

end Treescribe
