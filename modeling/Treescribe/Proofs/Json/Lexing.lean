import Mathlib.Data.List.Chain
import Treescribe.Proofs.Json.Grammar

/-!
# Reading tokens back

A sequence of tokens is read back from each of its spellings. A string or a bracket ends with
its last byte, so it is complete whatever follows; a number or a word is complete only at
the next byte that cannot belong to it, and in the tokens of a value such a byte always
follows.
-/

namespace Treescribe

namespace Json

/-- A token of a single byte, which ends the number or word before it. -/
def Token.isPunctuation : Token → Bool
  | .null | .bool _ | .number _ | .string _ => false
  | _ => true

/-- A token that shows its own end. -/
def Token.isDelimited : Token → Bool
  | .null | .bool _ | .number _ => false
  | _ => true

/-- Two tokens that can stand side by side without white space. -/
def Token.Apart (left right : Token) : Prop :=
  left.isDelimited ∨ right.isPunctuation

/-- A byte that belongs to no number and to no word. -/
def isSeparator (byte : UInt8) : Bool :=
  !isNumberByte byte && !isLetter byte

/-- What follows lets a number or word end. -/
def Separated (bytes : List UInt8) : Prop :=
  ∀ byte ∈ bytes.head?, isSeparator byte

/-- A separator continues neither a number nor a word. -/
theorem outside_of_isSeparator {byte : UInt8} (separator : isSeparator byte) :
    isNumberByte byte = false ∧ isLetter byte = false := by
  simpa [isSeparator] using separator

/-- White space lets a number or word end. -/
theorem isSeparator_of_whiteSpace : ∀ byte ∈ whiteSpace, isSeparator byte :=
  List.all_eq_true.mp (by decide)

section Numbers

/-- Digits in front are skipped, up to the first byte that is none. -/
theorem dropWhile_digits {digits rest : List UInt8} (all : ∀ byte ∈ digits, isDigit byte)
    (ends : ∀ byte ∈ rest.head?, ¬ isDigit byte) :
    (digits ++ rest).dropWhile isDigit = rest := by
  rw [List.dropWhile_append_of_pos all]
  cases rest with
  | nil => rfl
  | cons byte rest => exact List.dropWhile_cons_of_neg (ends byte rfl)

/-- No digit is a sign. -/
theorem not_sign_of_isDigit {byte : UInt8} (digit : isDigit byte) :
    byte ≠ '+'.toUInt8 ∧ byte ≠ '-'.toUInt8 := by
  constructor <;> rintro rfl <;> revert digit <;> decide

/-- An exponent is accepted. -/
theorem ExponentPart.accepted {bytes : List UInt8} (exponent : ExponentPart bytes) :
    isExponent bytes := by
  cases exponent with
  | absent => rfl
  | @digits mark sign bytes marked signed digits =>
    obtain ⟨nonempty, all⟩ := digits
    have exponent_mark : (mark == 'e'.toUInt8 || mark == 'E'.toUInt8) = true := by
      simpa using marked
    have accepted : (!bytes.isEmpty && bytes.all isDigit) = true := by
      simpa [nonempty] using all
    simp only [List.mem_cons, List.not_mem_nil, or_false] at signed
    rcases signed with rfl | rfl | rfl
    · -- Without a sign, the first digit must not be taken for one.
      obtain ⟨first, rest, rfl⟩ := List.exists_cons_of_ne_nil nonempty
      obtain ⟨no_plus, no_minus⟩ := not_sign_of_isDigit (all first (by simp))
      simpa [isExponent, exponent_mark, no_plus, no_minus] using accepted
    · simpa [isExponent, exponent_mark] using accepted
    · simpa [isExponent, exponent_mark] using accepted

/-- An exponent starts with no digit and no point. -/
theorem ExponentPart.head {bytes : List UInt8} (exponent : ExponentPart bytes) :
    ∀ byte ∈ bytes.head?, ¬ isDigit byte ∧ byte ≠ '.'.toUInt8 := by
  cases exponent with
  | absent => simp
  | digits marked signed digits =>
    simp only [List.mem_cons, List.not_mem_nil, or_false] at marked
    rcases marked with rfl | rfl <;> simp <;> decide

/-- A fraction with an exponent behind it is accepted, and starts with no digit. -/
theorem FractionPart.accepted {fraction exponent : List UInt8}
    (fraction_part : FractionPart fraction) (exponent_part : ExponentPart exponent) :
    isFraction (fraction ++ exponent) ∧
      ∀ byte ∈ (fraction ++ exponent).head?, ¬ isDigit byte := by
  cases fraction_part with
  | absent =>
    refine ⟨?_, fun byte head => (exponent_part.head byte head).1⟩
    cases exponent with
    | nil => rfl
    | cons mark rest =>
      have no_point := (exponent_part.head mark rfl).2
      simpa [isFraction, no_point] using exponent_part.accepted
  | @digits bytes digits =>
    obtain ⟨nonempty, all⟩ := digits
    refine ⟨?_, by simp; decide⟩
    have behind := dropWhile_digits all fun byte head => (exponent_part.head byte head).1
    obtain ⟨first, rest, rfl⟩ := List.exists_cons_of_ne_nil nonempty
    have digit := all first (by simp)
    simp only [List.cons_append] at behind
    simp [isFraction, behind, digit, exponent_part.accepted]

/-- A whole part with a fraction and an exponent behind it is accepted, and starts with
no minus sign. -/
theorem WholePart.accepted {whole fraction exponent : List UInt8} (whole_part : WholePart whole)
    (fraction_part : FractionPart fraction) (exponent_part : ExponentPart exponent) :
    isUnsignedNumber (whole ++ (fraction ++ exponent)) ∧
      ∀ byte ∈ (whole ++ (fraction ++ exponent)).head?, byte ≠ '-'.toUInt8 := by
  obtain ⟨accepted, ends⟩ := fraction_part.accepted exponent_part
  cases whole_part with
  | zero => exact ⟨by simpa [isUnsignedNumber] using accepted, by simp; decide⟩
  | @digits first rest nonzero digits =>
    obtain ⟨digit, others⟩ := List.forall_mem_cons.mp digits.2
    have behind := dropWhile_digits others ends
    refine ⟨?_, by simpa using (not_sign_of_isDigit digit).2⟩
    simp [isUnsignedNumber, nonzero, digit, behind, accepted]

/-- Every number of the grammar is accepted. -/
theorem NumberLiteral.accepted {literal : List UInt8} (number : NumberLiteral literal) :
    isNumber literal := by
  cases number with
  | @parts sign whole fraction exponent signed whole_part fraction_part exponent_part =>
    obtain ⟨accepted, unsigned⟩ := whole_part.accepted fraction_part exponent_part
    simp only [List.mem_cons, List.not_mem_nil, or_false] at signed
    rcases signed with rfl | rfl
    · rw [List.nil_append]
      revert accepted unsigned
      cases whole ++ (fraction ++ exponent) with
      | nil => intro accepted; cases accepted
      | cons first rest =>
        intro accepted unsigned
        simpa [isNumber, unsigned first rfl] using accepted
    · simpa [isNumber] using accepted

/-- Every byte of a number can occur in a number. -/
theorem NumberLiteral.isNumberByte {literal : List UInt8} (number : NumberLiteral literal) :
    ∀ byte ∈ literal, isNumberByte byte := by
  have of_digits {bytes : List UInt8} (digits : Digits bytes) :
      ∀ byte ∈ bytes, Json.isNumberByte byte := fun byte member => by
    simp [Json.isNumberByte, digits.2 byte member]
  have of_sign : ∀ sign ∈ [[], ['+'.toUInt8], ['-'.toUInt8]],
      sign.all Json.isNumberByte := List.all_eq_true.mp (by decide)
  have of_mark : ∀ mark ∈ ['e'.toUInt8, 'E'.toUInt8], Json.isNumberByte mark :=
    List.all_eq_true.mp (by decide)
  cases number with
  | @parts sign whole fraction exponent signed whole_part fraction_part exponent_part =>
    simp only [List.forall_mem_append]
    refine ⟨List.all_eq_true.mp (of_sign sign ?_), ?_, ?_, ?_⟩
    · exact List.Sublist.subset (by decide) signed
    · cases whole_part with
      | zero => exact List.all_eq_true.mp (by decide)
      | digits nonzero digits => exact of_digits digits
    · cases fraction_part with
      | absent => simp
      | digits digits => exact List.forall_mem_cons.mpr ⟨by decide, of_digits digits⟩
    · cases exponent_part with
      | absent => simp
      | @digits mark sign bytes marked signed digits =>
        rw [List.cons_append, List.forall_mem_cons, List.forall_mem_append]
        exact ⟨of_mark mark marked, List.all_eq_true.mp (of_sign sign signed), of_digits digits⟩

/-- A number starts with a digit or a minus sign. -/
theorem NumberLiteral.head {literal : List UInt8} (number : NumberLiteral literal) :
    ∃ first rest, literal = first :: rest ∧ startsNumber first := by
  have whole_head {whole : List UInt8} (whole_part : WholePart whole) :
      ∃ first rest, whole = first :: rest ∧ startsNumber first := by
    cases whole_part with
    | zero => exact ⟨_, _, rfl, by decide⟩
    | @digits first rest nonzero digits =>
      exact ⟨first, rest, rfl, by simp [startsNumber, digits.2 first (by simp)]⟩
  cases number with
  | @parts sign whole fraction exponent signed whole_part fraction_part exponent_part =>
    simp only [List.mem_cons, List.not_mem_nil, or_false] at signed
    rcases signed with rfl | rfl
    · obtain ⟨first, rest, rfl, starts⟩ := whole_head whole_part
      exact ⟨first, rest ++ (fraction ++ exponent), rfl, starts⟩
    · exact ⟨'-'.toUInt8, whole ++ (fraction ++ exponent), rfl, by decide⟩

end Numbers

section Strings

/-- A hexadecimal digit has its value. -/
theorem HexDigit.accepted {byte : UInt8} {value : Nat} (digit : HexDigit byte value) :
    hexValue? byte = some value := by
  obtain ⟨bound, rfl | rfl⟩ := digit
  · revert value
    decide
  · revert value
    decide

/-- The letter of a short escape has its value, and opens no code unit. -/
theorem shortEscape?_of_mem :
    ∀ escape ∈ shortEscapes, escape.1 ≠ 'u'.toUInt8 ∧ shortEscape? escape.1 = some escape.2 := by
  have all : shortEscapes.all fun escape =>
      escape.1 != 'u'.toUInt8 && shortEscape? escape.1 == some escape.2 := by decide
  simpa using all

/-- Inside a string, a spelled unit is read as that unit. -/
theorem UnitSpelling.read {unit : StringUnit} {bytes : List UInt8}
    (spelled : UnitSpelling unit bytes) (tokens : List Token) (held : List StringUnit) :
    bytes.foldlM Lexer.feed? ⟨tokens, .inString held⟩ =
      some ⟨tokens, .inString (unit :: held)⟩ := by
  have escaped : Lexer.feed? ⟨tokens, .inString held⟩ '\\'.toUInt8 =
      some ⟨tokens, .inEscape held⟩ := rfl
  cases spelled with
  | byte visible unquoted unescaped =>
    simp [Lexer.feed?, unquoted, unescaped, UInt8.not_lt.mpr visible]
  | short listed =>
    obtain ⟨no_code, stands_for⟩ := shortEscape?_of_mem _ listed
    rw [List.foldlM_cons, escaped]
    simp [Lexer.feed?, no_code, stands_for]
  | code first_digit second_digit third_digit fourth_digit =>
    rw [List.foldlM_cons, escaped]
    simp [Lexer.feed?, first_digit.accepted, second_digit.accepted, third_digit.accepted,
      fourth_digit.accepted]

/-- Inside a string, spelled units are read as those units. -/
theorem units_read {units : List StringUnit} {pieces : List (List UInt8)}
    (spelled : List.Forall₂ UnitSpelling units pieces) (tokens : List Token)
    (held : List StringUnit) :
    pieces.flatten.foldlM Lexer.feed? ⟨tokens, .inString held⟩ =
      some ⟨tokens, .inString (units.reverse ++ held)⟩ := by
  induction spelled generalizing held with
  | nil => rfl
  | cons unit rest inductionHypothesis =>
    rw [List.flatten_cons, List.foldlM_append, unit.read, List.reverse_cons, List.append_assoc]
    exact inductionHypothesis _

end Strings

namespace Lexer

/-- What is read when nothing comes behind these bytes. -/
def finish? (lexer : Lexer) (bytes : List UInt8) : Option Lexer :=
  (bytes.foldlM feed? lexer).bind settle?

/-- Bytes that are read completely leave the rest to the lexer behind them. -/
theorem finish?_append {lexer next : Lexer} {bytes : List UInt8}
    (read : bytes.foldlM feed? lexer = some next) (rest : List UInt8) :
    lexer.finish? (bytes ++ rest) = next.finish? rest := by
  simp [finish?, List.foldlM_append, read]

/-- A lexer that can settle is between tokens afterwards, and a separator makes it settle. -/
theorem feed?_of_settle? {lexer settled : Lexer} (settles : lexer.settle? = some settled) :
    settled.mode = .between ∧
      ∀ byte, isSeparator byte → lexer.feed? byte = settled.feed? byte := by
  obtain ⟨tokens, mode⟩ := lexer
  cases mode with
  | between =>
    cases settles
    exact ⟨rfl, fun _ _ => rfl⟩
  | inNumber bytes =>
    have accepted : isNumber bytes.reverse := by
      by_contra rejected
      simp [settle?, rejected] at settles
    have same : settled = ⟨.number bytes.reverse :: tokens, .between⟩ := by
      simpa [settle?, accepted, emit] using settles.symm
    subst same
    refine ⟨rfl, fun byte separator => ?_⟩
    simp [feed?, outside_of_isSeparator separator, settles]
  | inWord letters =>
    obtain ⟨token, word, rfl⟩ := Option.map_eq_some_iff.mp settles
    refine ⟨rfl, fun byte separator => ?_⟩
    simp [feed?, outside_of_isSeparator separator, settles, emit]
  | _ => cases settles

/-- Where a separator or nothing follows, a number or word is as good as complete. -/
theorem finish?_of_settle? {lexer settled : Lexer} (settles : lexer.settle? = some settled)
    {rest : List UInt8} (separated : Separated rest) :
    lexer.finish? rest = settled.finish? rest := by
  obtain ⟨between, feeds⟩ := feed?_of_settle? settles
  cases rest with
  | nil =>
    have stays : settled.settle? = some settled := by rw [settle?, between]
    exact settles.trans stays.symm
  | cons byte rest =>
    rw [finish?, finish?, List.foldlM_cons, List.foldlM_cons, feeds byte (separated byte rfl)]

/-- A number or word that is read up to its end is complete where a separator or nothing
follows. -/
theorem finish?_append_of_settle? {lexer next settled : Lexer} {bytes rest : List UInt8}
    (read : bytes.foldlM feed? lexer = some next) (settles : next.settle? = some settled)
    (separated : Separated rest) :
    lexer.finish? (bytes ++ rest) = settled.finish? rest :=
  (finish?_append read rest).trans (finish?_of_settle? settles separated)

/-- White space between tokens is skipped. -/
theorem foldlM_whiteSpace {space : List UInt8} (blank : space ⊆ whiteSpace)
    (tokens : List Token) : space.foldlM feed? ⟨tokens, .between⟩ = some ⟨tokens, .between⟩ := by
  have skipped : ∀ byte ∈ whiteSpace, isSpace byte := List.all_eq_true.mp (by decide)
  induction space with
  | nil => rfl
  | cons byte rest inductionHypothesis =>
    rw [List.cons_subset] at blank
    have stays : feed? ⟨tokens, .between⟩ byte = some ⟨tokens, .between⟩ := by
      simp [feed?, begin?, skipped byte blank.1]
    rw [List.foldlM_cons, stays]
    exact inductionHypothesis blank.2

/-- A byte that starts a number opens one. -/
theorem begin?_of_startsNumber {byte : UInt8} (starts : startsNumber byte)
    (tokens : List Token) :
    begin? ⟨tokens, .between⟩ byte = some ⟨tokens, .inNumber [byte]⟩ := by
  have no_space : isSpace byte = false := by
    by_contra space
    simp only [isSpace, Bool.or_eq_true, beq_iff_eq, Bool.not_eq_false] at space
    rcases space with ((rfl | rfl) | rfl) | rfl <;> revert starts <;> decide
  have no_quote : byte ≠ '"'.toUInt8 := by
    rintro rfl
    revert starts
    decide
  simp [begin?, no_space, no_quote, starts]

/-- The bytes of a number are held until it ends. -/
theorem foldlM_numberBytes {bytes : List UInt8} (all : ∀ byte ∈ bytes, isNumberByte byte)
    (tokens : List Token) (held : List UInt8) :
    bytes.foldlM feed? ⟨tokens, .inNumber held⟩ =
      some ⟨tokens, .inNumber (bytes.reverse ++ held)⟩ := by
  induction bytes generalizing held with
  | nil => rfl
  | cons byte rest inductionHypothesis =>
    obtain ⟨numeric, others⟩ := List.forall_mem_cons.mp all
    have taken : feed? ⟨tokens, .inNumber held⟩ byte =
        some ⟨tokens, .inNumber (byte :: held)⟩ := by
      simp [feed?, numeric]
    rw [List.foldlM_cons, taken, List.reverse_cons, List.append_assoc]
    exact inductionHypothesis others _

end Lexer

/-- A number is read as a token that only its end is missing from. -/
theorem NumberLiteral.read {literal : List UInt8} (number : NumberLiteral literal)
    (tokens : List Token) :
    ∃ lexer : Lexer, literal.foldlM Lexer.feed? ⟨tokens, .between⟩ = some lexer ∧
      lexer.settle? = some ⟨.number literal :: tokens, .between⟩ := by
  obtain ⟨first, rest, rfl, starts⟩ := number.head
  have others := (List.forall_mem_cons.mp number.isNumberByte).2
  refine ⟨⟨tokens, .inNumber (rest.reverse ++ [first])⟩, ?_, ?_⟩
  · rw [List.foldlM_cons]
    have opened : Lexer.feed? ⟨tokens, .between⟩ first = some ⟨tokens, .inNumber [first]⟩ :=
      Lexer.begin?_of_startsNumber starts tokens
    rw [opened]
    exact Lexer.foldlM_numberBytes others tokens [first]
  · simp [Lexer.settle?, Lexer.emit, number.accepted]

/-- A word is read as a token that only its end is missing from. -/
theorem settle?_inWord {letters : List UInt8} {token : Token} (word : word? letters = some token)
    (tokens : List Token) :
    Lexer.settle? ⟨tokens, .inWord letters.reverse⟩ = some ⟨token :: tokens, .between⟩ := by
  simp [Lexer.settle?, Lexer.emit, word]

/-- Every token is read back from each of its spellings, where something follows that can
follow it. -/
theorem TokenSpelling.read {token : Token} {bytes rest : List UInt8}
    (spelled : TokenSpelling token bytes) (ends : token.isDelimited ∨ Separated rest)
    (tokens : List Token) :
    Lexer.finish? ⟨tokens, .between⟩ (bytes ++ rest) =
      Lexer.finish? ⟨token :: tokens, .between⟩ rest := by
  cases spelled with
  | openArray | closeArray | openObject | closeObject | comma | colon =>
    exact Lexer.finish?_append rfl rest
  | null =>
    have word : word? ("null".toList.map Char.toUInt8) = some .null := by decide +kernel
    exact Lexer.finish?_append_of_settle? rfl (settle?_inWord word tokens)
      (ends.resolve_left Bool.false_ne_true)
  | bool value =>
    have word : word? ((toString value).toList.map Char.toUInt8) = some (.bool value) := by
      cases value <;> decide +kernel
    refine Lexer.finish?_append_of_settle? ?_ (settle?_inWord word tokens)
      (ends.resolve_left Bool.false_ne_true)
    cases value <;> rfl
  | number wellFormed =>
    obtain ⟨lexer, read, settles⟩ := wellFormed.read tokens
    exact Lexer.finish?_append_of_settle? read settles (ends.resolve_left Bool.false_ne_true)
  | @string units pieces spelled =>
    apply Lexer.finish?_append
    have opened : Lexer.feed? ⟨tokens, .between⟩ '"'.toUInt8 =
        some ⟨tokens, .inString []⟩ := rfl
    rw [List.foldlM_cons, opened, Option.bind_eq_bind, Option.bind_some, List.foldlM_append,
      units_read spelled]
    simp [Lexer.feed?, Lexer.emit]

/-- White space lets a number or word end, where what is behind the white space does. -/
theorem separated_append {space rest : List UInt8} (blank : space ⊆ whiteSpace)
    (separated : Separated rest) : Separated (space ++ rest) := by
  cases space with
  | nil => exact separated
  | cons byte space =>
    rintro _ ⟨⟩
    exact isSeparator_of_whiteSpace byte (blank (by simp))

/-- A sequence of tokens lets a number or word end if it starts with a punctuation mark. -/
theorem SequenceSpelling.separated {tokens : List Token} {bytes : List UInt8}
    (sequence : SequenceSpelling tokens bytes)
    (punctuated : ∀ token ∈ tokens.head?, token.isPunctuation) : Separated bytes := by
  cases sequence with
  | nil blank => simpa using separated_append blank (by simp [Separated] : Separated [])
  | cons blank spelled sequence =>
    refine separated_append blank ?_
    have mark := punctuated _ rfl
    cases spelled with
    | openArray | closeArray | openObject | closeObject | comma | colon =>
      rintro _ ⟨⟩
      decide
    | _ => cases mark

/-- A sequence of tokens is read back from each of its spellings. -/
theorem SequenceSpelling.read {tokens : List Token} {bytes : List UInt8}
    (sequence : SequenceSpelling tokens bytes) (apart : tokens.IsChain Token.Apart)
    (held : List Token) :
    Lexer.finish? ⟨held, .between⟩ bytes = some ⟨tokens.reverse ++ held, .between⟩ := by
  induction sequence generalizing held with
  | nil blank => simp [Lexer.finish?, Lexer.foldlM_whiteSpace blank, Lexer.settle?]
  | @cons space bytes rest token later blank spelled sequence inductionHypothesis =>
    rw [List.isChain_cons] at apart
    -- A token without an end of its own is followed by a punctuation mark, or by nothing.
    have ends : token.isDelimited ∨ Separated rest := by
      by_cases delimited : token.isDelimited
      · exact .inl delimited
      · exact .inr (sequence.separated fun next head =>
          (apart.1 next head).resolve_left delimited)
    rw [Lexer.finish?_append (Lexer.foldlM_whiteSpace blank held), spelled.read ends,
      inductionHypothesis apart.2, List.reverse_cons, List.append_assoc]
    rfl

/-- Tokens that may follow a value without white space. -/
structure Follow (rest : List Token) : Prop where
  punctuated : ∀ token ∈ rest.head?, token.isPunctuation
  apart : rest.IsChain Token.Apart

/-- A punctuation mark in front of a sequence of tokens keeps them apart. -/
theorem Follow.mark {mark : Token} (punctuation : mark.isPunctuation) {rest : List Token}
    (apart : rest.IsChain Token.Apart) : Follow (mark :: rest) where
  punctuated := by
    rintro _ ⟨⟩
    exact punctuation
  apart := by
    have delimited : mark.isDelimited := by
      cases mark with
      | null | bool _ | number _ | string _ => cases punctuation
      | _ => rfl
    exact List.isChain_cons.mpr ⟨fun _ _ => .inl delimited, apart⟩

/-- Whatever stands in front of tokens that may follow a value is apart from them. -/
theorem Follow.cons {rest : List Token} (follow : Follow rest) (token : Token) :
    (token :: rest).IsChain Token.Apart :=
  List.isChain_cons.mpr ⟨fun next head => .inr (follow.punctuated next head), follow.apart⟩

/-- Parts with commas between them are kept apart where each of them is. -/
theorem isChain_intercalate {parts : List (List Token)}
    (each : ∀ part ∈ parts, ∀ rest, Follow rest → (part ++ rest).IsChain Token.Apart)
    {rest : List Token} (follow : Follow rest) :
    (List.intercalate [.comma] parts ++ rest).IsChain Token.Apart := by
  cases parts with
  | nil => exact follow.apart
  | cons first others =>
    obtain ⟨here, later⟩ := List.forall_mem_cons.mp each
    rw [intercalate_comma_cons, List.append_assoc]
    apply here
    clear here each
    induction others with
    | nil => exact follow
    | cons part others inductionHypothesis =>
      obtain ⟨here, later⟩ := List.forall_mem_cons.mp later
      rw [List.flatMap_cons, List.append_assoc]
      exact .mark rfl (here _ (inductionHypothesis later))

/-- The tokens of a value are kept apart, from each other and from what follows. -/
theorem isChain_tokens (json : Json) {rest : List Token} (follow : Follow rest) :
    (json.tokens ++ rest).IsChain Token.Apart := by
  induction json using byParts generalizing rest with
  | step json inductionHypothesis =>
    cases json with
    | null | bool _ | number _ | string _ => exact follow.cons _
    | array items =>
      have closed : Follow (.closeArray :: rest) := .mark rfl follow.apart
      rw [tokens, List.cons_append, List.append_assoc]
      refine (Follow.mark rfl (isChain_intercalate ?_ closed)).apart
      intro part member rest follow
      rw [itemTokens_eq_map] at member
      obtain ⟨item, inside, rfl⟩ := List.mem_map.mp member
      exact inductionHypothesis item inside follow
    | object members =>
      have closed : Follow (.closeObject :: rest) := .mark rfl follow.apart
      rw [tokens, List.cons_append, List.append_assoc]
      refine (Follow.mark rfl (isChain_intercalate ?_ closed)).apart
      intro part member rest follow
      rw [memberTokens_eq_map] at member
      obtain ⟨⟨name, value⟩, inside, rfl⟩ := List.mem_map.mp member
      have apart := inductionHypothesis value (List.mem_map.mpr ⟨_, inside, rfl⟩) follow
      exact (Follow.mark rfl apart).cons (.string name)

/-- The tokens of a value are read back from each of its texts. -/
theorem Text.tokens_read {json : Json} {bytes : List UInt8} (text : json.Text bytes) :
    tokens? bytes = some json.tokens := by
  have apart : json.tokens.IsChain Token.Apart := by
    simpa using isChain_tokens json (⟨by simp, .nil⟩ : Follow [])
  have finished : Lexer.finish? {} bytes = _ := SequenceSpelling.read text apart []
  obtain ⟨lexer, fed, settled⟩ := Option.bind_eq_some_iff.mp finished
  simp [tokens?, fed, settled]

end Json

end Treescribe
