import Treescribe.Text.Scan

/-!
# Byte offsets

A place in a text is counted in the bytes before it, as the text is spelled in UTF-8. A scan
reports the characters of code by their offsets, each with the number of brackets open before
it; the characters inside literals are not reported.
-/

namespace Treescribe.Text

/-- The number of bytes of a text. -/
def byteLength (text : List Char) : Nat :=
  (String.ofList text).utf8ByteSize

@[simp] theorem byteLength_nil : byteLength [] = 0 :=
  rfl

@[simp] theorem byteLength_append (first second : List Char) :
    byteLength (first ++ second) = byteLength first + byteLength second := by
  rw [byteLength, String.ofList_append, String.utf8ByteSize_append]
  rfl

@[simp] theorem byteLength_cons (c : Char) (rest : List Char) :
    byteLength (c :: rest) = c.utf8Size + byteLength rest := by
  have first : byteLength [c] = c.utf8Size := by
    rw [byteLength, ← String.singleton_eq_ofList, String.utf8ByteSize_singleton]
  rw [← List.singleton_append, byteLength_append, first]

/-- Every character has bytes. -/
theorem byteLength_pos {text : List Char} (nonempty : text ≠ []) : 0 < byteLength text := by
  obtain ⟨c, rest, rfl⟩ := List.exists_cons_of_ne_nil nonempty
  rw [byteLength_cons]
  exact Nat.add_pos_left c.utf8Size_pos _

/-- The characters of a text that starts at an offset, each with its own offset. -/
def indexedFrom (offset : Nat) : List Char → List (Nat × Char)
  | [] => []
  | c :: rest => (offset, c) :: indexedFrom (offset + c.utf8Size) rest

/-- The characters of a text, each with its offset. -/
def indexed (text : List Char) : List (Nat × Char) :=
  indexedFrom 0 text

/-- A character of code: its offset, and the number of brackets open before it. -/
structure CodePlace where
  offset : Nat
  char : Char
  depth : Nat
deriving DecidableEq, Repr

/-- The characters of code among marks that start at an offset. -/
def codePlacesFrom (offset : Nat) : List Mark → List CodePlace
  | [] => []
  | mark :: rest =>
    (mark.depth?.map fun depth => ⟨offset, mark.char, depth⟩).toList ++
      codePlacesFrom (offset + mark.char.utf8Size) rest

/-- The characters of code in a text. -/
def codePlaces (text : List Char) : List CodePlace :=
  codePlacesFrom 0 (marks text)

/-- The text of marks starts with the character of the first one. -/
theorem unmark_cons (mark : Mark) (rest : List Mark) :
    unmark (mark :: rest) = mark.char :: unmark rest :=
  rfl

/-- The text of two lists of marks is that of the one and then that of the other. -/
theorem unmark_append (first second : List Mark) :
    unmark (first ++ second) = unmark first ++ unmark second :=
  List.map_append

/-- Marks are reported from left to right. -/
theorem codePlacesFrom_append (offset : Nat) (first second : List Mark) :
    codePlacesFrom offset (first ++ second) =
      codePlacesFrom offset first ++
        codePlacesFrom (offset + byteLength (unmark first)) second := by
  induction first generalizing offset with
  | nil => rfl
  | cons mark rest inductionHypothesis =>
    rw [List.cons_append, codePlacesFrom, inductionHypothesis, codePlacesFrom, List.append_assoc,
      unmark_cons, byteLength_cons, Nat.add_assoc]

/-- The characters of a text lie behind the offset where it starts and before its end. -/
theorem bounds_of_mem_indexedFrom {offset : Nat} {text : List Char} :
    ∀ entry ∈ indexedFrom offset text,
      offset ≤ entry.1 ∧ entry.1 < offset + byteLength text := by
  induction text generalizing offset with
  | nil => simp [indexedFrom]
  | cons c rest inductionHypothesis =>
    rw [indexedFrom, List.forall_mem_cons, byteLength_cons]
    have wide := c.utf8Size_pos
    refine ⟨by omega, fun entry member => ?_⟩
    have later := inductionHypothesis entry member
    omega

/-- What is reported stands in the text. -/
theorem mem_indexedFrom_of_codePlace {offset : Nat} {marks : List Mark} :
    ∀ place ∈ codePlacesFrom offset marks,
      (place.offset, place.char) ∈ indexedFrom offset (unmark marks) := by
  induction marks generalizing offset with
  | nil => simp [codePlacesFrom]
  | cons mark rest inductionHypothesis =>
    intro place member
    rw [codePlacesFrom, List.mem_append, Option.mem_toList, Option.map_eq_some_iff] at member
    rw [unmark_cons, indexedFrom, List.mem_cons]
    rcases member with ⟨depth, -, rfl⟩ | later
    · exact .inl rfl
    · exact .inr (inductionHypothesis place later)

/-- The reports lie behind the offset where the marks start and before their end. -/
theorem bounds_of_mem_codePlacesFrom {offset : Nat} {marks : List Mark} {place : CodePlace}
    (member : place ∈ codePlacesFrom offset marks) :
    offset ≤ place.offset ∧ place.offset < offset + byteLength (unmark marks) :=
  bounds_of_mem_indexedFrom _ (mem_indexedFrom_of_codePlace place member)

/-- What is reported is a mark in code. -/
theorem exists_mark_of_codePlace {offset : Nat} {marks : List Mark} :
    ∀ place ∈ codePlacesFrom offset marks, ⟨place.char, some place.depth⟩ ∈ marks := by
  induction marks generalizing offset with
  | nil => simp [codePlacesFrom]
  | cons mark rest inductionHypothesis =>
    intro place member
    rw [codePlacesFrom, List.mem_append, Option.mem_toList, Option.map_eq_some_iff] at member
    rcases member with ⟨depth, found, rfl⟩ | later
    · rw [← found]
      exact List.mem_cons_self
    · exact List.mem_cons_of_mem _ (inductionHypothesis place later)

/-- What is reported at the offset of a mark is that mark. -/
theorem find?_offset (front later : List Mark) (c : Char) (depth? : Option Nat) :
    (codePlacesFrom 0 (front ++ ⟨c, depth?⟩ :: later)).find?
        (·.offset == byteLength (unmark front)) =
      depth?.map fun depth => ⟨byteLength (unmark front), c, depth⟩ := by
  have before : (codePlacesFrom 0 front).find? (·.offset == byteLength (unmark front)) = none := by
    rw [List.find?_eq_none]
    intro place member same
    have bounds := bounds_of_mem_codePlacesFrom member
    rw [beq_iff_eq] at same
    omega
  have behind : (codePlacesFrom (byteLength (unmark front) + c.utf8Size) later).find?
      (·.offset == byteLength (unmark front)) = none := by
    rw [List.find?_eq_none]
    intro place member same
    have bounds := bounds_of_mem_codePlacesFrom member
    have wide := c.utf8Size_pos
    rw [beq_iff_eq] at same
    omega
  rw [codePlacesFrom_append, Nat.zero_add, codePlacesFrom, List.find?_append, before,
    Option.none_or, List.find?_append, behind, Option.or_none]
  cases depth? <;> simp

end Treescribe.Text
