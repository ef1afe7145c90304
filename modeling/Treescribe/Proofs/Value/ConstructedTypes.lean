import Treescribe.Proofs.Text.Nesting
import Treescribe.Proofs.Value.SingleLines
import Treescribe.Value.Typing

/-!
# The types of constructions

Two places cut the name of a type out of a value: its shape names the type that a field is declared
with, and the written construction names the type that is constructed. The one cuts at the first
parenthesis or, for a class of the program, at the first angle bracket; the other always at the
parenthesis, and it leaves the white space before one that is never closed. They agree exactly if
nothing but white space is left between the two cuts, and nothing at all in the last case.
-/

namespace Treescribe

namespace Text

/-- A text is cut at no character that it does not have. -/
theorem takeWhile_ne_of_not_mem {cut : Char} {text : List Char} (absent : cut ∉ text) :
    text.takeWhile (· != cut) = text := by
  rw [List.takeWhile_eq_self_iff]
  intro c member
  rw [bne_iff_ne]
  rintro rfl
  exact absent member

/-- The start of a text starts with no white space if the text does not. -/
theorem head?_takeWhile_solid {text : List Char}
    (start : ∀ c ∈ text.head?, isBlank c = false) (stays : Char → Bool) :
    ∀ c ∈ (text.takeWhile stays).head?, isBlank c = false := by
  intro c first
  rw [List.head?_takeWhile] at first
  exact start c (Option.filter_eq_some_iff.mp first).1

end Text

namespace Literal

/-- The text before the first opening parenthesis. -/
def beforeParenthesis (text : List Char) : List Char :=
  text.takeWhile (· != '(')

/-- What a construction is written to construct: the text between `new` and the first opening
parenthesis. -/
def constructed (text : List Char) : List Char :=
  if (constructionParts? text).isSome then Text.trim (beforeParenthesis text)
  else beforeParenthesis text

/-- No parenthesis stands before the first one. -/
theorem not_mem_beforeParenthesis (text : List Char) : '(' ∉ beforeParenthesis text := by
  intro member
  exact absurd (List.mem_takeWhile_imp member) (by decide)

/-- What is constructed is named without a parenthesis. -/
theorem not_mem_constructed (text : List Char) : '(' ∉ constructed text := by
  have before := not_mem_beforeParenthesis text
  unfold constructed
  split_ifs
  · exact fun member => before ((Text.trim_infix _).subset member)
  · exact before

/-- What stands before the first parenthesis of a text is followed by it. -/
theorem exists_eq_beforeParenthesis {text : List Char} (opened : '(' ∈ text) :
    ∃ behind, text = beforeParenthesis text ++ '(' :: behind := by
  have whole : beforeParenthesis text ++ text.dropWhile (· != '(') = text :=
    List.takeWhile_append_dropWhile
  cases rest : text.dropWhile (· != '(') with
  | nil =>
    rw [rest, List.append_nil] at whole
    rw [← whole] at opened
    exact absurd opened (not_mem_beforeParenthesis text)
  | cons c behind =>
    have parenthesis := List.head?_dropWhile_not (· != '(') text
    simp only [rest, List.head?_cons, bne_eq_false_iff_eq] at parenthesis
    exact ⟨behind, by rw [← parenthesis, ← rest, whole]⟩

/-- A text without parentheses has no parts around one. -/
theorem constructionParts?_eq_none {text : List Char} (plain : '(' ∉ text) :
    constructionParts? text = none := by
  have whole : text.takeWhile (· != '(') = text := Text.takeWhile_ne_of_not_mem plain
  have nothing : (Text.marks text).drop text.length = [] := by
    rw [← Text.length_marks, List.drop_length]
  simp only [constructionParts?, whole, nothing]
  rfl

/-- The parts of a construction start with what stands before its parenthesis. -/
theorem head_of_constructionParts? {text : List Char} {parts : ConstructionParts}
    (found : constructionParts? text = some parts) : parts.head = beforeParenthesis text := by
  simp only [constructionParts?, Option.map_eq_some_iff] at found
  obtain ⟨split, -, rfl⟩ := found
  rfl

/-- A construction is written as what it constructs and a parenthesis behind it. -/
theorem exists_construction_eq (layout : Layout) (text : List Char) :
    ∃ behind, construction layout text = "new ".toList ++ constructed text ++ '(' :: behind := by
  rw [construction]
  by_cases opened : '(' ∈ text
  · rw [if_pos (by simpa using opened)]
    cases found : constructionParts? text with
    | some parts =>
      have shown : constructed text = Text.trim parts.head := by
        rw [constructed, found, head_of_constructionParts? found]
        rfl
      refine ⟨commaSeparated ((splitArguments parts.arguments).map (code layout)) ++ [')'] ++
        Text.dotLinks parts.rest, ?_⟩
      simp [shown]
    | none =>
      have shown : constructed text = beforeParenthesis text := by
        rw [constructed, found]
        rfl
      obtain ⟨behind, follows⟩ := exists_eq_beforeParenthesis opened
      refine ⟨behind, ?_⟩
      rw [shown, List.append_assoc, ← follows]
  · rw [if_neg (by simpa using opened)]
    have shown : constructed text = text := by
      rw [constructed, constructionParts?_eq_none opened]
      exact Text.takeWhile_ne_of_not_mem opened
    refine ⟨[')'], by rw [shown]⟩

/-- Two texts without parentheses that stand before one each are the same or neither starts the
other. -/
theorem prefix_parenthesis_iff {first second : List Char} (firstPlain : '(' ∉ first)
    (secondPlain : '(' ∉ second) (behind : List Char) :
    first ++ ['('] <+: second ++ '(' :: behind ↔ first = second := by
  induction first generalizing second with
  | nil =>
    cases second with
    | nil => simp
    | cons c rest =>
      have other : '(' ≠ c := fun same => secondPlain (same ▸ List.mem_cons_self)
      simp [other]
  | cons c rest inductionHypothesis =>
    rw [List.mem_cons, not_or] at firstPlain
    cases second with
    | nil => simp [Ne.symm firstPlain.1]
    | cons d others =>
      rw [List.mem_cons, not_or] at secondPlain
      simp [List.cons_prefix_cons, inductionHypothesis firstPlain.2 secondPlain.2]

end Literal

namespace Shape

open Literal (beforeParenthesis constructed constructionParts?)

/-- The two cuts through a trimmed value fall on the same place: no class is cut off its type
arguments, and no white space is left before a parenthesis that is not closed. -/
def CutsAgree (classes : List String) (value : List Char) : Prop :=
  ('<' ∈ beforeParenthesis value → String.ofList (head value) ∉ classes) ∧
    ((constructionParts? value).isSome ∨
      Text.trim (beforeParenthesis value) = beforeParenthesis value)

instance (classes : List String) (value : List Char) : Decidable (CutsAgree classes value) :=
  inferInstanceAs (Decidable (('<' ∈ beforeParenthesis value →
      String.ofList (head value) ∉ classes) ∧
    ((constructionParts? value).isSome ∨
      Text.trim (beforeParenthesis value) = beforeParenthesis value)))

/-- The head of a value is what stands before its first parenthesis, up to an angle bracket. -/
theorem head_eq (value : List Char) :
    head value = Text.trim ((beforeParenthesis value).takeWhile (· != '<')) := by
  rw [beforeParenthesis, List.takeWhile_takeWhile, head]
  congr 2
  funext c
  rw [Bool.decide_and, Bool.decide_eq_true, Bool.decide_eq_true, Bool.and_comm]

/-- The head of a value is all that stands before its parenthesis unless an angle bracket does. -/
theorem head_eq_trim_iff (value : List Char) :
    head value = Text.trim (beforeParenthesis value) ↔ '<' ∉ beforeParenthesis value := by
  rw [head_eq]
  constructor
  · intro same angle
    have kept := Text.mem_trim angle (by decide)
    rw [← same] at kept
    exact absurd (List.mem_takeWhile_imp ((Text.trim_infix _).subset kept)) (by decide)
  · intro plain
    rw [Text.takeWhile_ne_of_not_mem plain]

variable {classes : List String} {value : List Char} {name : String}

/-- The name of the constructed type is the trimmed text before the parenthesis unless a class is
followed by type arguments. -/
theorem name_eq_trim_iff (constructs : ofTrimmed classes value = .construction name) :
    Text.trim (beforeParenthesis value) = name.toList ↔
      ('<' ∈ beforeParenthesis value → String.ofList (head value) ∉ classes) := by
  rcases name_of_ofTrimmed constructs with ⟨known, named⟩ | ⟨unknown, named⟩
  · rw [named, eq_comm, head_eq_trim_iff]
    exact ⟨fun plain angle => absurd angle plain, fun apart angle => apart angle known⟩
  · exact iff_of_true named.symm fun _ => unknown

/-- The name of the constructed type has no white space around it. -/
theorem trim_name (constructs : ofTrimmed classes value = .construction name) :
    Text.trim name.toList = name.toList := by
  rcases name_of_ofTrimmed constructs with ⟨-, named⟩ | ⟨-, named⟩
  · rw [named, head, Text.trim_trim]
  · rw [named, Text.trim_trim]

/-- The name of the constructed type starts what is constructed. -/
theorem name_prefix_constructed (start : ∀ c ∈ value.head?, Text.isBlank c = false)
    (constructs : ofTrimmed classes value = .construction name) :
    name.toList <+: constructed value := by
  have front : ∀ c ∈ (beforeParenthesis value).head?, Text.isBlank c = false :=
    Text.head?_takeWhile_solid start _
  have within : name.toList <+: beforeParenthesis value := by
    rcases name_of_ofTrimmed constructs with ⟨-, named⟩ | ⟨-, named⟩
    · rw [named, head_eq]
      exact (Text.trim_prefix_self (Text.head?_takeWhile_solid front _)).trans
        (List.takeWhile_prefix _)
    · rw [named]
      exact Text.trim_prefix_self front
  have solid : ∀ c ∈ name.toList.getLast?, Text.isBlank c = false := by
    rw [← trim_name constructs]
    exact (Text.trim_ends name.toList).2
  unfold constructed
  split_ifs
  · exact Text.prefix_trim front solid within
  · exact within

/-- What is constructed is the named type exactly if the two cuts agree. -/
theorem constructed_eq_iff (constructs : ofTrimmed classes value = .construction name) :
    constructed value = name.toList ↔ CutsAgree classes value := by
  have trimmed := trim_name constructs
  rw [CutsAgree, ← name_eq_trim_iff constructs, constructed]
  split_ifs with closed
  · simp [closed]
  · simp only [closed, Bool.false_eq_true, false_or]
    constructor
    · intro same
      rw [same]
      exact ⟨trimmed, trimmed⟩
    · rintro ⟨named, whole⟩
      rw [← whole, named]

end Shape

namespace Value

open Shape (CutsAgree)

/-- A field with no type stated is declared with the name that the shape of its value gives. That
name starts the type that the value constructs, and it is all of it exactly if the two cuts through
the value agree. -/
theorem constructed_type_declared {classes : List String} {text name : String}
    (constructs : Shape.classify classes false (some text) = .construction name)
    (layout : Layout) (floatContext : Bool) :
    (⟨none, .construction name, true, false⟩ : Declaration).type?.map TargetType.code = some name ∧
      "new ".toList ++ name.toList <+:
        (render layout (.construction name) floatContext text).toList ∧
      ("new ".toList ++ name.toList ++ ['('] <+:
          (render layout (.construction name) floatContext text).toList ↔
        CutsAgree classes (Text.trim text.toList)) := by
  rw [Shape.classify_some] at constructs
  have start := (Text.trim_ends text.toList).1
  have part := Shape.name_prefix_constructed start constructs
  have rendered : (render layout (.construction name) floatContext text).toList =
      Literal.construction layout (Text.trim text.toList) := String.toList_ofList
  obtain ⟨behind, written⟩ := Literal.exists_construction_eq layout (Text.trim text.toList)
  have plain := Literal.not_mem_constructed (Text.trim text.toList)
  rw [rendered, written, List.append_assoc, List.append_assoc, List.prefix_append_right_inj,
    List.prefix_append_right_inj]
  refine ⟨rfl, part.trans (List.prefix_append _ _), ?_⟩
  rw [Literal.prefix_parenthesis_iff (fun member => plain (part.subset member)) plain, eq_comm]
  exact Shape.constructed_eq_iff constructs

/-- White space before the parenthesis is no part of either type. -/
theorem constructed_type_declared_spaced :
    Shape.classify ["Foo"] false (some " Foo (1)") = .construction "Foo" ∧
      "new Foo(".toList <+: (render .compact (.construction "Foo") false " Foo (1)").toList := by
  have constructs : Shape.classify ["Foo"] false (some " Foo (1)") = .construction "Foo" := by
    decide
  have agree : CutsAgree ["Foo"] (Text.trim " Foo (1)".toList) := by decide
  exact ⟨constructs, (constructed_type_declared constructs .compact false).2.2.mpr agree⟩

/-- A class with type arguments is declared without and constructed with them. -/
theorem type_arguments_not_declared :
    Shape.classify ["Foo"] false (some "Foo<int>(1)") = .construction "Foo" ∧
      render .compact (.construction "Foo") false "Foo<int>(1)" = "new Foo<int>(1)" ∧
      ¬"new Foo(".toList <+:
        (render .compact (.construction "Foo") false "Foo<int>(1)").toList := by
  decide

end Value

end Treescribe
