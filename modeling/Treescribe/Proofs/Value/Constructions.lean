import Treescribe.Literal.Construction
import Treescribe.Proofs.Text.Nesting
import Treescribe.Proofs.Text.Trimming

/-!
# Constructions and their arguments

Three scans read a construction: one for the parenthesis that closes the first, one for the
commas between the arguments, and one for the links behind it. They start at different places
and still agree: the arguments of a construction, if each of them is well nested, are found
one by one, whatever their literals and brackets hold.
-/

namespace Treescribe.Literal

open Text (Balanced WellNested)

/-- A space that follows each comma is taken as the start of an argument. -/
theorem commaSeparated_cons (first : List Char) (rest : List (List Char)) :
    commaSeparated (first :: rest) = List.intercalate [','] (first :: rest.map (' ' :: ·)) := by
  induction rest generalizing first with
  | nil => simp [commaSeparated]
  | cons next others inductionHypothesis =>
    have spaced : List.intercalate [','] ((' ' :: next) :: others.map (' ' :: ·)) =
        ' ' :: List.intercalate [','] (next :: others.map (' ' :: ·)) := by
      cases others <;> simp [List.intercalate_cons_cons]
    have later := inductionHypothesis next
    unfold commaSeparated at later ⊢
    rw [List.intercalate_cons_cons, List.map_cons, List.intercalate_cons_cons, later, spaced]
    simp

/-- A space before an argument changes nothing of its nesting. -/
theorem wellNested_spaced {argument : List Char} (nested : WellNested argument) :
    WellNested (' ' :: argument) := by
  have space : Balanced [' '] := by decide
  have marked : Text.marks (' ' :: argument) = ⟨' ', some 0⟩ :: Text.marks argument := rfl
  refine ⟨space.append nested.toBalanced, ?_⟩
  rw [marked, List.mem_cons, not_or]
  exact ⟨by decide, nested.noComma⟩

/-- Well-nested arguments are so with the spaces before them. -/
theorem wellNested_pieces {first : List Char} {rest : List (List Char)}
    (nested : ∀ argument ∈ first :: rest, WellNested argument) :
    ∀ piece ∈ first :: rest.map (' ' :: ·), WellNested piece := by
  intro piece member
  rcases List.mem_cons.mp member with rfl | member
  · exact nested piece (by simp)
  · obtain ⟨argument, argumentMem, rfl⟩ := List.mem_map.mp member
    exact wellNested_spaced (nested argument (by simp [argumentMem]))

variable {arguments : List (List Char)}

/-- Well-nested arguments are balanced together. -/
theorem balanced_commaSeparated (nested : ∀ argument ∈ arguments, WellNested argument) :
    Balanced (commaSeparated arguments) := by
  cases arguments with
  | nil => exact Text.balanced_plain (by simp [commaSeparated])
  | cons first rest =>
    rw [commaSeparated_cons]
    exact (Text.scan_intercalate (fun piece member => (wellNested_pieces nested piece member).1)
      rfl rfl).1

/-- Arguments make up a blank list only if there are none, or a single blank one. -/
theorem trim_commaSeparated_ne_nil {first : List Char} {rest : List (List Char)}
    (solid : rest = [] → Text.trim first ≠ []) :
    Text.trim (commaSeparated (first :: rest)) ≠ [] := by
  cases rest with
  | nil => simpa [commaSeparated] using solid rfl
  | cons next others =>
    rw [ne_eq, Text.trim_eq_nil_iff]
    intro blank
    have comma : ',' ∈ commaSeparated (first :: next :: others) := by
      simp [commaSeparated, List.intercalate_cons_cons]
    exact absurd (blank ',' comma) (by decide)

/-- Well-nested arguments are found one by one, without the white space around them. -/
theorem splitArguments_commaSeparated (nested : ∀ argument ∈ arguments, WellNested argument)
    (solid : ∀ argument, arguments = [argument] → Text.trim argument ≠ []) :
    splitArguments (commaSeparated arguments) = arguments.map Text.trim := by
  cases arguments with
  | nil => rfl
  | cons first rest =>
    have notBlank : Text.trim (commaSeparated (first :: rest)) ≠ [] :=
      trim_commaSeparated_ne_nil fun alone => solid first (by rw [alone])
    have unmarked : ∀ piece : List Char, Text.unmark (Text.marks piece) = piece :=
      Text.unmark_marksFrom {}
    have unspaced : ∀ argument : List Char, Text.trim (' ' :: argument) = Text.trim argument :=
      Text.trim_cons_of_blank (by decide)
    rw [splitArguments, if_neg (by simpa using notBlank), commaSeparated_cons,
      Text.splitOnP_marks_intercalate (List.cons_ne_nil _ _) (wellNested_pieces nested)]
    simp [unmarked, unspaced]

/-- No mark of a balanced text closes a parenthesis that was opened before the text. -/
theorem not_isCodeAt_of_balanced {inner : List Char} (balanced : Balanced inner)
    {mark : Text.Mark} (member : mark ∈ Text.marksFrom { depth := 1 } inner) :
    mark.isCodeAt ')' 1 = false := by
  rw [balanced.marksFrom] at member
  obtain ⟨⟨c, depth?⟩, own, rfl⟩ := List.mem_map.mp member
  rw [Bool.eq_false_iff]
  intro closes
  obtain ⟨rfl, rfl⟩ : c = ')' ∧ depth? = some 0 := by
    simpa [Text.Mark.isCodeAt, Text.Mark.deepen] using closes
  exact balanced.closesOwn.1 own

/-- A parenthesis is closed behind the balanced text that follows it. -/
theorem closeParenthesis?_of_balanced {inner : List Char} (balanced : Balanced inner)
    (rest : List Char) :
    closeParenthesis? (Text.marks ('(' :: inner ++ ')' :: rest)) = some (inner, rest) := by
  have marked : Text.marks ('(' :: inner ++ ')' :: rest) =
      ⟨'(', some 0⟩ :: (Text.marksFrom { depth := 1 } inner ++
        ⟨')', some 1⟩ :: Text.marksFrom {} rest) := by
    -- Behind the opening parenthesis the scan goes on at depth one, up to its own closing one.
    have opened : Text.marks ('(' :: inner ++ ')' :: rest) =
        ⟨'(', some 0⟩ :: Text.marksFrom { depth := 1 } (inner ++ ')' :: rest) := rfl
    rw [opened, Text.marksFrom_append, balanced.after]
    rfl
  have stay : ∀ mark ∈ Text.marksFrom { depth := 1 } inner, !mark.isCodeAt ')' (0 + 1) := by
    intro mark member
    simp [not_isCodeAt_of_balanced balanced member]
  simp only [marked, closeParenthesis?]
  rw [List.dropWhile_append_of_pos stay, List.takeWhile_append_of_pos stay,
    List.dropWhile_cons_of_neg (by decide), List.takeWhile_cons_of_neg (by decide)]
  simp

/-- The first parenthesis of a text is closed behind the balanced text that follows it. -/
theorem constructionParts?_of_balanced {head inner : List Char}
    (plain : ∀ c ∈ head, Text.isBracket c = false ∧ Text.isQuote c = false)
    (balanced : Balanced inner) (rest : List Char) :
    constructionParts? (head ++ '(' :: inner ++ ')' :: rest) = some ⟨head, inner, rest⟩ := by
  have before : ∀ c ∈ head, (c != '(') = true := by
    intro c member
    rw [bne_iff_ne]
    rintro rfl
    exact absurd (plain _ member).1 (by decide)
  have name : (head ++ '(' :: inner ++ ')' :: rest).takeWhile (· != '(') = head := by
    rw [List.append_assoc, List.takeWhile_append_of_pos before]
    simp
  simp only [constructionParts?, name]
  rw [List.append_assoc, (Text.balanced_plain plain).drop_marks_append,
    closeParenthesis?_of_balanced balanced]
  rfl

/-- A construction is written with its trimmed head, its arguments one by one in their target
forms, and the links behind it as dots. -/
theorem construction_of_arguments {head : List Char}
    (plain : ∀ c ∈ head, Text.isBracket c = false ∧ Text.isQuote c = false)
    (nested : ∀ argument ∈ arguments, WellNested argument)
    (solid : ∀ argument, arguments = [argument] → Text.trim argument ≠ [])
    (layout : Layout) (rest : List Char) :
    constructionParts? (head ++ '(' :: commaSeparated arguments ++ ')' :: rest) =
        some ⟨head, commaSeparated arguments, rest⟩ ∧
      splitArguments (commaSeparated arguments) = arguments.map Text.trim ∧
      construction layout (head ++ '(' :: commaSeparated arguments ++ ')' :: rest) =
        "new ".toList ++ Text.trim head ++ ['('] ++
          commaSeparated (arguments.map (code layout)) ++ [')'] ++ Text.dotLinks rest := by
  have parts := constructionParts?_of_balanced plain (balanced_commaSeparated nested) rest
  have separate := splitArguments_commaSeparated nested solid
  refine ⟨parts, separate, ?_⟩
  have opened : (head ++ '(' :: commaSeparated arguments ++ ')' :: rest).contains '(' = true := by
    simp
  have trimmed : code layout ∘ Text.trim = code layout := by
    funext argument
    simp [code]
  rw [construction, if_pos opened, parts]
  simp only [separate, List.map_map, trimmed]

/-- Arguments that hold commas and parentheses of their own. -/
def nestingArguments : List (List Char) :=
  ["'a, b'".toList, "Bar(1, [2, 3])".toList, " \"c)\"".toList]

/-- Neither a comma of an argument nor the parenthesis of a literal ends anything. -/
theorem construction_of_nestingArguments :
    (∀ argument ∈ nestingArguments, WellNested argument) ∧
      construction .compact
          (" Foo".toList ++ '(' :: commaSeparated nestingArguments ++ ')' :: "@size".toList) =
        "new Foo(\"a, b\", Bar(1, [2, 3]), \"c)\").size".toList := by
  have nested : ∀ argument ∈ nestingArguments, WellNested argument := by decide
  refine ⟨nested, ?_⟩
  have plain : ∀ c ∈ " Foo".toList, Text.isBracket c = false ∧ Text.isQuote c = false := by
    simp [Text.isBracket, Text.isQuote]
  have several : ∀ argument, nestingArguments = [argument] → Text.trim argument ≠ [] := by
    simp [nestingArguments]
  have written := construction_of_arguments plain nested several .compact "@size".toList
  exact written.2.2.trans (by decide)

end Treescribe.Literal
