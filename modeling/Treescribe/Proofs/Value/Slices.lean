import Treescribe.Proofs.Text.Slices
import Treescribe.Proofs.Value.Quotations
import Treescribe.Session.Condition
import Treescribe.Value.Rendering

/-!
# Values cut by byte offsets

The functions that take values apart, once more: here each of them finds byte offsets and cuts
the text between them, and fails where a slice does not exist. None of them ever fails, and
what they give is what the definitions on characters give. Offsets that one search finds are
used by another expression, with a delimiter's length added or taken off, so each slice has
its own reason to exist: the parts before and behind it.
-/

namespace Treescribe

namespace Bytewise

open Text Literal

/-- The text behind at most one sign. -/
def unsigned? (text : List Char) : Option (List Char) :=
  if text.head? = some '+' || text.head? = some '-' then slice? text 1 (byteLength text)
  else some text

/-- The marks of the radixes. -/
def radixMarks : List (List Char × Radix) :=
  [(['0', 'x'], .hexadecimal), (['0', 'X'], .hexadecimal), (['0', 'o'], .octal),
    (['0', 'O'], .octal), (['0', 'b'], .binary), (['0', 'B'], .binary)]

/-- The radix of an unsigned integer literal, and its text behind the mark of that radix. -/
def splitRadix? (digits : List Char) : Option (Radix × List Char) :=
  match radixMarks.find? (·.1.isPrefixOf digits) with
  | some (mark, radix) => (slice? digits (byteLength mark) (byteLength digits)).map (radix, ·)
  | none => some (.decimal, digits)

/-- An integer literal. -/
def isInteger? (text : List Char) : Option Bool := do
  let body ← unsigned? text
  let (radix, digits) ← splitRadix? body
  return isDigits radix digits

/-- A float literal. -/
def isFloat? (text : List Char) : Option Bool := do
  let body ← unsigned? text
  return body.head?.any (fun c => c.isDigit || c == '.') &&
    body.any (fun c => c == '.' || c == 'e' || c == 'E') && isDecimal (body.filter (· != '_'))

/-- Whether a text starts and ends with a delimiter, the two not overlapping in bytes. -/
def isQuoted (delimiter text : List Char) : Bool :=
  2 * byteLength delimiter ≤ byteLength text && delimiter.isPrefixOf text &&
    delimiter.isSuffixOf text

/-- The kind of a literal. -/
def kind? (text : List Char) : Option (Option LiteralKind) :=
  let text := trim text
  if isQuoted ['"'] text || isQuoted ['\''] text || isQuoted ['\x60'] text then some (some .string)
  else
    match keywordKind? text with
    | some kind => some (some kind)
    | none =>
      if text.head? = some '[' && text.getLast? = some ']' then some (some .list)
      else do
        if ← isInteger? text then return some .int
        else if ← isFloat? text then return some .float
        else return none

/-- The target form of a literal, link or expression. -/
def code? (layout : Layout) (text : List Char) : Option (List Char) :=
  let text := trim text
  if isQuoted tripleBacktick text then
    (slice? text (byteLength tripleBacktick)
      (byteLength text - byteLength tripleBacktick)).map (verbatim layout)
  else if isQuoted ['\''] text || isQuoted ['\x60'] text then
    (slice? text 1 (byteLength text - 1)).map doubleQuoted
  else some (codeOfWord text)

/-- The arguments from an offset on, cut at the commas outside all brackets. -/
def splitFrom? (text : List Char) (start : Nat) : List CodePlace → Option (List (List Char))
  | [] => do
    let last ← slice? text start (byteLength text)
    return [trim last]
  | place :: later =>
    if place.char == ',' && place.depth == 0 then do
      let part ← slice? text start place.offset
      let others ← splitFrom? text (place.offset + 1) later
      return trim part :: others
    else splitFrom? text start later

/-- The arguments of an argument list. -/
def splitArguments? (text : List Char) : Option (List (List Char)) :=
  if (trim text).isEmpty then some [] else splitFrom? text 0 (codePlaces text)

/-- Whether a place behind an offset has a closing parenthesis at a depth. -/
def closesAt (opening depth : Nat) (place : CodePlace) : Bool :=
  opening < place.offset && place.char == ')' && place.depth == depth

/-- The offset of the parenthesis that closes the one at an offset. -/
def closingOffset? (places : List CodePlace) (opening : Nat) : Option Nat := do
  let first ← places.find? (·.offset == opening)
  let last ← places.find? (closesAt opening (first.depth + 1))
  return last.offset

/-- The `new` expression of a trimmed text. -/
def construction? (layout : Layout) (value : List Char) : Option (List Char) :=
  match offsetOf? (· == '(') value with
  | none => some ("new ".toList ++ value ++ ['(', ')'])
  | some opening =>
    match closingOffset? (codePlaces value) opening with
    | none => some ("new ".toList ++ value)
    | some closing => do
      let arguments ← slice? value (opening + 1) closing
      let written ← (← splitArguments? arguments).mapM (code? layout)
      let head ← slice? value 0 opening
      let rest ← slice? value (closing + 1) (byteLength value)
      return "new ".toList ++ trim head ++ ['('] ++ commaSeparated written ++ [')'] ++
        dotLinks rest

/-- The trimmed text before the first opening parenthesis or angle bracket. -/
def head? (value : List Char) : Option (List Char) := do
  let stop := (offsetOf? (fun c => c == '(' || c == '<') value).getD (byteLength value)
  let head ← slice? value 0 stop
  return trim head

/-- The shape of the value of a node. -/
def classify? (classes : List String) (hasChain : Bool) (value : Option String) :
    Option Shape :=
  if hasChain then some .chain
  else
    match value with
    | none => some .absent
    | some value => do
      let value := trim value.toList
      match ← kind? value with
      | some kind => return .literal kind
      | none =>
        let head := String.ofList (← head? value)
        if head ∈ classes then return .construction head
        else if TypeTag.isTag head && value.contains '(' then
          let stop := (offsetOf? (· == '(') value).getD (byteLength value)
          let name ← slice? value 0 stop
          return .construction (String.ofList (trim name))
        else return .expression

/-- The text behind the first of the keywords that opens it and does not only start a name. -/
def behindKeyword? (text : List Char) : List String → Option (List Char)
  | [] => some text
  | keyword :: others =>
    if keyword.toList.isPrefixOf text then do
      let rest ← slice? text (byteLength keyword.toList) (byteLength text)
      if rest.head?.any isWordChar then behindKeyword? text others else return rest
    else behindKeyword? text others

/-- The condition in the text of a branch. -/
def condition? (keywords : List String) (text : String) : Option String := do
  let bare ← behindKeyword? (trim text.toList) keywords
  return String.ofList (trim (dropEnd (· == '\x7b') bare))

/-- At most one sign is cut off. -/
theorem unsigned?_eq (text : List Char) : unsigned? text = some (unsigned text) := by
  unfold unsigned?
  split
  · rename_i signed
    simp only [Bool.or_eq_true, decide_eq_true_eq, List.head?_eq_some_iff] at signed
    rcases signed with ⟨body, rfl⟩ | ⟨body, rfl⟩
    · exact slice?_behind ['+'] body
    · exact slice?_behind ['-'] body
  · rename_i bare
    simp only [Bool.or_eq_true, decide_eq_true_eq, not_or] at bare
    rw [unsigned.eq_3 text (by rintro body rfl; simp at bare) (by rintro body rfl; simp at bare)]

/-- The mark of a radix is cut off. -/
theorem splitRadix?_eq (digits : List Char) : splitRadix? digits = some (splitRadix digits) := by
  unfold splitRadix?
  split
  · rename_i mark radix found
    have listed := List.mem_of_find?_eq_some found
    have starts := List.find?_some found
    obtain ⟨body, rfl⟩ := List.isPrefixOf_iff_prefix.mp starts
    rw [slice?_behind, Option.map_some]
    simp only [radixMarks, List.mem_cons, Prod.mk.injEq, List.not_mem_nil, or_false] at listed
    rcases listed with ⟨rfl, rfl⟩ | ⟨rfl, rfl⟩ | ⟨rfl, rfl⟩ | ⟨rfl, rfl⟩ | ⟨rfl, rfl⟩ |
      ⟨rfl, rfl⟩ <;> rfl
  · rename_i none
    have plain : ∀ mark ∈ radixMarks, ¬ mark.1 <+: digits := by
      simpa [List.isPrefixOf_iff_prefix] using List.find?_eq_none.mp none
    simp only [radixMarks, List.forall_mem_cons] at plain
    unfold splitRadix
    split
    case h_7 => rfl
    all_goals simp at plain

/-- Delimiters that do not overlap in bytes do not overlap in characters, and conversely. -/
theorem isQuoted_eq (delimiter text : List Char) :
    isQuoted delimiter text = isDelimited delimiter text := by
  rw [Bool.eq_iff_iff]
  constructor
  · intro quoted
    simp only [isQuoted, Bool.and_eq_true, decide_eq_true_eq, List.isPrefixOf_iff_prefix,
      List.isSuffixOf_iff_suffix] at quoted
    obtain ⟨⟨long, starts⟩, front, rfl⟩ := quoted
    simp only [isDelimited, Bool.and_eq_true, decide_eq_true_eq, List.isPrefixOf_iff_prefix,
      List.isSuffixOf_iff_suffix]
    refine ⟨⟨?_, starts⟩, List.suffix_append front delimiter⟩
    by_contra short
    simp only [List.length_append] at short
    -- What stands before the second delimiter would be a proper part of the first one.
    obtain ⟨more, split⟩ := List.prefix_of_prefix_length_le (List.prefix_append front delimiter)
      starts (by omega)
    have proper : more ≠ [] := by
      rintro rfl
      rw [List.append_nil] at split
      rw [split] at short
      omega
    have lengths := congrArg byteLength split
    have wide := byteLength_pos proper
    simp only [byteLength_append] at long lengths
    omega
  · intro delimited
    obtain ⟨body, rfl⟩ := isDelimited_iff.mp delimited
    simp only [isDelimited, Bool.and_eq_true] at delimited
    simp only [isQuoted, Bool.and_eq_true, decide_eq_true_eq, byteLength_append]
    exact ⟨⟨by omega, delimited.1.2⟩, delimited.2⟩

/-- Integer literals are told apart by the same digits. -/
theorem isInteger?_eq (text : List Char) : isInteger? text = some (isInteger text) := by
  simp [isInteger?, unsigned?_eq, splitRadix?_eq, isInteger]

/-- Float literals are told apart by the same digits. -/
theorem isFloat?_eq (text : List Char) : isFloat? text = some (isFloat text) := by
  simp [isFloat?, unsigned?_eq, isFloat]

/-- Every text has its kind. -/
theorem kind?_eq (text : List Char) : kind? text = some (Literal.kind? text) := by
  rw [kind?, Literal.kind?, kindOfTrimmed?, isQuoted_eq, isQuoted_eq, isQuoted_eq, ← isString]
  by_cases quoted : isString (trim text)
  · simp [quoted]
  · cases keywordKind? (trim text) with
    | some kind => simp [quoted]
    | none =>
      simp only [quoted, isInteger?_eq, isFloat?_eq, Option.bind_eq_bind, Option.bind_some,
        Bool.false_eq_true, if_false]
      split_ifs <;> rfl

/-- The body of a delimited text is cut out. -/
theorem slice?_of_isDelimited {delimiter text : List Char}
    (delimited : isDelimited delimiter text) :
    slice? text (byteLength delimiter) (byteLength text - byteLength delimiter) =
      some (inside delimiter text) := by
  obtain ⟨body, rfl⟩ := isDelimited_iff.mp delimited
  rw [inside_between, byteLength_append (delimiter ++ body), Nat.add_sub_cancel]
  exact slice?_append delimiter body delimiter

/-- Every text has its target form. -/
theorem code?_eq (layout : Layout) (text : List Char) :
    code? layout text = some (code layout text) := by
  simp only [code?, isQuoted_eq, code, codeOfTrimmed]
  split_ifs with triple quoted
  · rw [slice?_of_isDelimited triple]
    rfl
  · -- The two quotes are one byte each, so the same slice lies between either.
    have cut : slice? (trim text) 1 (byteLength (trim text) - 1) =
        some (inside ['\''] (trim text)) := by
      rcases Bool.or_eq_true_iff.mp quoted with single | backtick
      · exact slice?_of_isDelimited single
      · exact slice?_of_isDelimited backtick
    rw [cut]
    rfl
  · rfl

/-- A mark that is no separator is passed over. -/
theorem splitFrom?_skip {mark : Mark} (other : mark.isCodeAt ',' 0 = false) (text : List Char)
    (start offset : Nat) (rest : List Mark) :
    splitFrom? text start (codePlacesFrom offset (mark :: rest)) =
      splitFrom? text start (codePlacesFrom (offset + mark.char.utf8Size) rest) := by
  obtain ⟨c, depth?⟩ := mark
  cases depth? with
  | none => rfl
  | some depth =>
    have passed : (c == ',' && depth == 0) = false := by
      simpa [Mark.isCodeAt] using other
    simp [codePlacesFrom, splitFrom?, passed]

/-- At a separator an argument is cut off, and the others follow. -/
theorem splitFrom?_cut {text part : List Char} {start offset : Nat} {rest : List Mark}
    {others : List (List Char)} (cut : slice? text start offset = some part)
    (later : splitFrom? text (offset + 1) (codePlacesFrom (offset + 1) rest) = some others) :
    splitFrom? text start (codePlacesFrom offset (⟨',', some 0⟩ :: rest)) =
      some (trim part :: others) := by
  have comma : codePlacesFrom offset (⟨',', some 0⟩ :: rest) =
      ⟨offset, ',', 0⟩ :: codePlacesFrom (offset + 1) rest := rfl
  simp [comma, splitFrom?, cut, later]

/-- From any offset on, the arguments are cut where the marks come apart. What is held stands
between that offset and the marks still to come. -/
theorem splitFrom?_eq (before held : List Char) {rest first : List Mark} {others : List (List Mark)}
    (apart : rest.splitOnP (·.isCodeAt ',' 0) = first :: others) :
    splitFrom? (before ++ held ++ unmark rest) (byteLength before)
        (codePlacesFrom (byteLength (before ++ held)) rest) =
      some (trim (held ++ unmark first) :: others.map fun part => trim (unmark part)) := by
  induction rest generalizing before held first others with
  | nil =>
    rw [List.splitOnP_nil] at apart
    cases apart
    have nothing : unmark [] = [] := rfl
    rw [codePlacesFrom, splitFrom?, nothing, List.append_nil, slice?_behind, List.append_nil]
    rfl
  | cons mark rest inductionHypothesis =>
    rw [List.splitOnP_cons_eq_if_modifyHead] at apart
    obtain ⟨next, further, remaining⟩ :=
      List.exists_cons_of_ne_nil (List.splitOnP_ne_nil (·.isCodeAt ',' 0) rest)
    rw [unmark_cons]
    by_cases separates : mark.isCodeAt ',' 0
    · rw [if_pos separates, remaining] at apart
      cases apart
      obtain ⟨c, depth?⟩ := mark
      obtain ⟨rfl, rfl⟩ : c = ',' ∧ depth? = some 0 := by simpa [Mark.isCodeAt] using separates
      have comma : byteLength (before ++ held ++ [',']) = byteLength (before ++ held) + 1 := by
        rw [byteLength_append _ [',']]
        rfl
      have later := inductionHypothesis (before ++ held ++ [',']) [] remaining
      rw [List.append_nil, List.append_assoc _ [','], List.singleton_append, comma] at later
      rw [splitFrom?_cut (slice?_append before held _) later]
      simp [unmark]
    · rw [if_neg separates, remaining, List.modifyHead_cons] at apart
      cases apart
      have further : byteLength (before ++ (held ++ [mark.char])) =
          byteLength (before ++ held) + mark.char.utf8Size := by
        rw [← List.append_assoc, byteLength_append _ [mark.char], byteLength_cons, byteLength_nil,
          Nat.add_zero]
      have later := inductionHypothesis before (held ++ [mark.char]) remaining
      rw [further, ← List.append_assoc, List.append_assoc _ [mark.char], List.singleton_append]
        at later
      rw [splitFrom?_skip (by simpa using separates), later, unmark_cons, List.append_assoc]
      rfl

/-- Every argument list comes apart. -/
theorem splitArguments?_eq (text : List Char) :
    splitArguments? text = some (splitArguments text) := by
  unfold splitArguments? splitArguments
  split
  · rfl
  · obtain ⟨first, others, apart⟩ :=
      List.exists_cons_of_ne_nil (List.splitOnP_ne_nil (·.isCodeAt ',' 0) (marks text))
    have cut := splitFrom?_eq [] [] apart
    rw [marks, unmark_marksFrom] at cut
    rw [apart]
    exact cut

section Closing

variable {opening start depth : Nat}

/-- Nothing is closed by marks that are no closing parenthesis of the depth. -/
theorem find?_closesAt_eq_none {marks : List Mark}
    (stays : ∀ mark ∈ marks, mark.isCodeAt ')' depth = false) :
    (codePlacesFrom start marks).find? (closesAt opening depth) = none := by
  rw [List.find?_eq_none]
  intro place member closes
  have other := stays _ (exists_mark_of_codePlace place member)
  simp only [closesAt, Bool.and_eq_true, beq_iff_eq] at closes
  simp [Mark.isCodeAt, closes] at other

/-- The first closing parenthesis of the depth is found behind the marks before it. -/
theorem find?_closesAt_eq_some {kept rest : List Mark} (behind : opening < start)
    (stays : ∀ mark ∈ kept, mark.isCodeAt ')' depth = false) :
    (codePlacesFrom start (kept ++ ⟨')', some depth⟩ :: rest)).find? (closesAt opening depth) =
      some ⟨start + byteLength (unmark kept), ')', depth⟩ := by
  have closes : closesAt opening depth ⟨start + byteLength (unmark kept), ')', depth⟩ := by
    simp [closesAt, Nat.lt_add_right _ behind]
  rw [codePlacesFrom_append, List.find?_append, find?_closesAt_eq_none stays, Option.none_or,
    codePlacesFrom]
  exact List.find?_cons_of_pos closes

/-- A parenthesis in code is closed by the first closing one a level deeper, or not at all. -/
theorem closeParenthesis?_cases (depth : Nat) (later : List Mark) :
    (closeParenthesis? (⟨'(', some depth⟩ :: later) = none ∧
        ∀ mark ∈ later, mark.isCodeAt ')' (depth + 1) = false) ∨
      ∃ kept rest, closeParenthesis? (⟨'(', some depth⟩ :: later) =
          some (unmark kept, unmark rest) ∧
        later = kept ++ ⟨')', some (depth + 1)⟩ :: rest ∧
        ∀ mark ∈ kept, mark.isCodeAt ')' (depth + 1) = false := by
  have split := List.takeWhile_append_dropWhile (p := fun mark : Mark =>
    !mark.isCodeAt ')' (depth + 1)) (l := later)
  have kept : ∀ mark ∈ later.takeWhile fun mark => !mark.isCodeAt ')' (depth + 1),
      mark.isCodeAt ')' (depth + 1) = false := fun mark member => by
    simpa using List.mem_takeWhile_imp member
  rw [closeParenthesis?]
  cases found : later.dropWhile fun mark => !mark.isCodeAt ')' (depth + 1) with
  | nil =>
    rw [found, List.append_nil] at split
    rw [split] at kept
    exact .inl ⟨by simp [found], kept⟩
  | cons closing rest =>
    have closes :=
      List.head?_dropWhile_not (fun mark : Mark => !mark.isCodeAt ')' (depth + 1)) later
    rw [found] at closes split
    obtain ⟨c, depth?⟩ := closing
    obtain ⟨rfl, rfl⟩ : c = ')' ∧ depth? = some (depth + 1) := by
      simpa [Mark.isCodeAt] using closes
    exact .inr ⟨_, rest, by simp [found], split.symm, kept⟩

/-- The parenthesis that closes the first one is found where the marks are cut at it. -/
theorem closingOffset?_eq (front later : List Mark) (depth? : Option Nat) :
    closingOffset? (codePlacesFrom 0 (front ++ ⟨'(', depth?⟩ :: later))
        (byteLength (unmark front)) =
      (closeParenthesis? (⟨'(', depth?⟩ :: later)).map fun parts =>
        byteLength (unmark front ++ '(' :: parts.1) := by
  rw [closingOffset?, find?_offset]
  cases depth? with
  | none => rfl
  | some depth =>
    have before : (codePlacesFrom 0 front).find?
        (closesAt (byteLength (unmark front)) (depth + 1)) = none := by
      rw [List.find?_eq_none]
      intro place member closes
      have bounds := bounds_of_mem_codePlacesFrom member
      simp only [closesAt, Bool.and_eq_true, decide_eq_true_eq] at closes
      omega
    have behind : (codePlacesFrom 0 (front ++ ⟨'(', some depth⟩ :: later)).find?
        (closesAt (byteLength (unmark front)) (depth + 1)) =
          (codePlacesFrom (byteLength (unmark front) + 1) later).find?
            (closesAt (byteLength (unmark front)) (depth + 1)) := by
      rw [codePlacesFrom_append, Nat.zero_add, List.find?_append, before, Option.none_or,
        codePlacesFrom]
      exact List.find?_cons_of_neg (by simp [closesAt])
    rw [Option.map_some, Option.bind_eq_bind, Option.bind_some, behind]
    rcases closeParenthesis?_cases depth later with ⟨none, stays⟩ | ⟨kept, rest, cut, rfl, stays⟩
    · rw [none, find?_closesAt_eq_none stays]
      rfl
    · rw [cut, find?_closesAt_eq_some (Nat.lt_succ_self _) stays, Option.map_some,
        byteLength_append, byteLength_cons, ← Nat.add_assoc]
      rfl

/-- Where a parenthesis is closed, the text behind it consists of the arguments, the closing
parenthesis and the rest. -/
theorem unmark_of_closeParenthesis? {later : List Mark} {depth? : Option Nat}
    {arguments rest : List Char}
    (cut : closeParenthesis? (⟨'(', depth?⟩ :: later) = some (arguments, rest)) :
    unmark later = arguments ++ ')' :: rest := by
  cases depth? with
  | none => cases cut
  | some depth =>
    rcases closeParenthesis?_cases depth later with ⟨none, -⟩ | ⟨kept, behind, found, rfl, -⟩
    · rw [none] at cut
      cases cut
    · rw [found] at cut
      cases cut
      rw [unmark_append, unmark_cons]

end Closing

section Construction

variable {head : List Char} (before : '(' ∉ head) (tail : List Char)

include before

/-- What stands before the first parenthesis is the head. -/
theorem takeWhile_head : (head ++ '(' :: tail).takeWhile (· != '(') = head := by
  have others : ∀ c ∈ head, (c != '(') = true := by
    rintro c member
    rw [bne_iff_ne]
    rintro rfl
    exact before member
  rw [List.takeWhile_append_of_pos others, List.takeWhile_cons_of_neg (by simp), List.append_nil]

/-- The first parenthesis of a text is found behind its head. -/
theorem offsetOf?_head : offsetOf? (· == '(') (head ++ '(' :: tail) = some (byteLength head) := by
  have stays : (fun c : Char => !(c == '(')) = (· != '(') := rfl
  rw [offsetOf?_eq, if_pos (by simp), stays, takeWhile_head before]

/-- The first parenthesis of a text is closed alike for its offsets and for its marks, and then
the text consists of the head, the arguments and the rest, and the two parentheses. -/
theorem closing_head :
    closingOffset? (codePlaces (head ++ '(' :: tail)) (byteLength head) =
        (constructionParts? (head ++ '(' :: tail)).map (fun parts =>
          byteLength (head ++ '(' :: parts.arguments)) ∧
      ∀ parts ∈ constructionParts? (head ++ '(' :: tail),
        parts.head = head ∧ tail = parts.arguments ++ ')' :: parts.rest := by
  have marked := marksFrom_append {} head ('(' :: tail)
  have shown : unmark (marksFrom {} head) = head := unmark_marksFrom {} head
  have length : (marksFrom {} head).length = head.length := by
    rw [← List.length_map Mark.char]
    exact congrArg List.length shown
  have drop : (marks (head ++ '(' :: tail)).drop head.length =
      marksFrom (({} : ScanState).after head) ('(' :: tail) := by
    rw [marks, marked, ← length, List.drop_left]
  rw [codePlaces, marks, marked, constructionParts?, takeWhile_head before, drop, marksFrom]
  constructor
  · have found := closingOffset?_eq (marksFrom {} head)
      (marksFrom ((({} : ScanState).after head).step '(') tail)
      (({} : ScanState).after head).codeDepth?
    rw [shown] at found
    rw [found, Option.map_map]
    rfl
  · intro parts member
    obtain ⟨⟨arguments, rest⟩, cut, rfl⟩ := Option.map_eq_some_iff.mp member
    have behind := unmark_of_closeParenthesis? cut
    rw [unmark_marksFrom] at behind
    exact ⟨rfl, behind⟩

end Construction

/-- The arguments lie between the two parentheses, the head before them and the rest behind
them. -/
theorem slices_around_parentheses (head arguments rest : List Char) :
    slice? (head ++ '(' :: (arguments ++ ')' :: rest)) (byteLength head + 1)
        (byteLength (head ++ '(' :: arguments)) = some arguments ∧
      slice? (head ++ '(' :: (arguments ++ ')' :: rest)) 0 (byteLength head) = some head ∧
      slice? (head ++ '(' :: (arguments ++ ')' :: rest))
        (byteLength (head ++ '(' :: arguments) + 1)
        (byteLength (head ++ '(' :: (arguments ++ ')' :: rest))) = some rest := by
  have width : ∀ (front : List Char) {c : Char}, c.utf8Size = 1 →
      byteLength (front ++ [c]) = byteLength front + 1 := fun front c single => by
    rw [byteLength_append, byteLength_cons, single]
    rfl
  refine ⟨?_, slice?_front _ _, ?_⟩
  · have cut := slice?_append (head ++ ['(']) arguments (')' :: rest)
    rw [width head rfl] at cut
    simpa only [List.append_assoc, List.cons_append, List.nil_append] using cut
  · have cut := slice?_behind (head ++ '(' :: arguments ++ [')']) rest
    rw [width (head ++ '(' :: arguments) rfl] at cut
    simpa only [List.append_assoc, List.cons_append, List.nil_append] using cut

/-- A construction is taken apart by the slices around its two parentheses. -/
theorem construction?_eq (layout : Layout) (value : List Char) :
    construction? layout value = some (construction layout value) := by
  by_cases parenthesis : '(' ∈ value
  · obtain ⟨head, tail, rfl, before⟩ := List.eq_append_cons_of_mem parenthesis
    obtain ⟨closing, split⟩ := closing_head before tail
    rw [construction?, offsetOf?_head before, construction,
      if_pos (List.contains_iff_mem.mpr parenthesis)]
    dsimp only
    rw [closing]
    cases found : constructionParts? (head ++ '(' :: tail) with
    | none => rfl
    | some parts =>
      obtain ⟨rfl, rfl⟩ := split parts found
      obtain ⟨arguments, front, rest⟩ :=
        slices_around_parentheses parts.head parts.arguments parts.rest
      have written : (splitArguments parts.arguments).mapM (code? layout) =
          some ((splitArguments parts.arguments).map (code layout)) := by
        rw [funext (code?_eq layout)]
        exact List.mapM_pure
      simp only [Option.map_some, arguments, front, rest, splitArguments?_eq, written,
        Option.bind_eq_bind, Option.bind_some]
      rfl
  · rw [construction?, offsetOf?_eq, if_neg (by simpa using parenthesis), construction,
      if_neg (by simpa using parenthesis)]

/-- What stands before a parenthesis or an angle bracket is cut off. -/
theorem head?_eq (value : List Char) : head? value = some (Shape.head value) := by
  have stays : (fun c : Char => !(c == '(' || c == '<')) = fun c => c != '(' && c != '<' := by
    funext c
    rw [Bool.not_or]
    rfl
  rw [head?, slice?_before, stays]
  rfl

/-- Every value has its shape. -/
theorem classify?_eq (classes : List String) (hasChain : Bool) (value : Option String) :
    classify? classes hasChain value = some (Shape.classify classes hasChain value) := by
  unfold classify? Shape.classify
  cases hasChain with
  | true => rfl
  | false =>
    cases value with
    | none => rfl
    | some value =>
      simp only [Bool.false_eq_true, if_false, kind?_eq, head?_eq, Option.bind_eq_bind,
        Option.bind_some, Shape.ofTrimmed, slice?_before]
      cases Literal.kind? (trim value.toList) with
      | some kind => rfl
      | none =>
        dsimp only
        split_ifs <;> rfl

/-- The keywords are tried in their order, and the first one that opens the text is cut off. -/
theorem behindKeyword?_eq (keywords : List String) (text : List Char) :
    behindKeyword? text keywords = some (Condition.withoutKeyword keywords text) := by
  induction keywords with
  | nil => rfl
  | cons keyword others inductionHypothesis =>
    have next : Condition.withoutKeyword (keyword :: others) text =
        (Condition.behind? text keyword).getD (Condition.withoutKeyword others text) := by
      rw [Condition.withoutKeyword, List.findSome?_cons]
      cases Condition.behind? text keyword <;> rfl
    rw [behindKeyword?, inductionHypothesis, next, Condition.behind?]
    by_cases starts : keyword.toList.isPrefixOf text
    · obtain ⟨rest, rfl⟩ := List.isPrefixOf_iff_prefix.mp starts
      have found : keyword.toList.isPrefixOf? (keyword.toList ++ rest) = some rest :=
        List.isPrefixOf?_eq_some_iff_append_eq.mpr rfl
      rw [if_pos starts, slice?_behind, found]
      by_cases joined : rest.head?.any isWordChar <;> simp [joined]
    · have missing : keyword.toList.isPrefixOf? text = none := by
        simpa [← List.isSome_isPrefixOf?_eq_isPrefixOf] using starts
      rw [if_neg starts, missing]
      rfl

/-- Every branch has its condition. -/
theorem condition?_eq (keywords : List String) (text : String) :
    condition? keywords text = some (Condition.code keywords text) := by
  rw [condition?, behindKeyword?_eq]
  rfl

/-- Whatever the text, every slice that is taken of it exists: its ends are in order, within the
text and between characters. No function on byte offsets fails, and each gives what is
defined on characters. -/
theorem slices_in_bounds :
    (∀ text, unsigned? text = some (unsigned text)) ∧
      (∀ digits, splitRadix? digits = some (splitRadix digits)) ∧
      (∀ text, splitArguments? text = some (splitArguments text)) ∧
      (∀ layout value, construction? layout value = some (construction layout value)) ∧
      (∀ layout text, code? layout text = some (code layout text)) ∧
      (∀ value, head? value = some (Shape.head value)) ∧
      (∀ classes hasChain value,
        classify? classes hasChain value = some (Shape.classify classes hasChain value)) ∧
      ∀ keywords text, condition? keywords text = some (Condition.code keywords text) :=
  ⟨unsigned?_eq, splitRadix?_eq, splitArguments?_eq, construction?_eq, code?_eq, head?_eq,
    classify?_eq, condition?_eq⟩

end Bytewise

end Treescribe
