import Mathlib.Data.List.Basic
import Treescribe.Text.Cut

/-!
# Placeholders

A placeholder cuts a text into pieces; to fill the text is to put something else between the
pieces. So a text stays as it is exactly if it has no placeholder, or if the filling is the
placeholder itself. A marker at the front of a text is dropped as often as it stands there.
-/

namespace Treescribe.Text

section Filling

variable {placeholder filling : List Char}

/-- The characters of an occurrence that are still to be passed over are left out. -/
theorem fillFrom_eq_fill_drop (skip : Nat) (text : List Char) :
    fillFrom placeholder filling skip text = fill placeholder filling (text.drop skip) := by
  induction text generalizing skip with
  | nil => simp [fill, fillFrom]
  | cons c rest inductionHypothesis =>
    cases skip with
    | zero => rfl
    | succ skip => exact inductionHypothesis skip

/-- Where a text starts with the placeholder, it starts with the filling when it is filled. -/
theorem fill_placeholder_append (some : placeholder ≠ []) (rest : List Char) :
    fill placeholder filling (placeholder ++ rest) = filling ++ fill placeholder filling rest := by
  obtain ⟨c, others, rfl⟩ := List.exists_cons_of_ne_nil some
  have found : (c :: others).isPrefixOf (c :: (others ++ rest)) = true :=
    List.isPrefixOf_iff_prefix.mpr ⟨rest, rfl⟩
  rw [fill, List.cons_append, fillFrom, if_pos found, fillFrom_eq_fill_drop]
  simp

/-- Where a text does not start with the placeholder, its first character stays. -/
theorem fill_cons {c : Char} {rest : List Char} (other : ¬ placeholder <+: c :: rest) :
    fill placeholder filling (c :: rest) = c :: fill placeholder filling rest := by
  rw [fill, fillFrom, if_neg (mt List.isPrefixOf_iff_prefix.mp other)]
  rfl

/-- A text is empty, starts with the placeholder, or starts with another character; what holds
behind these starts holds of every text. -/
theorem byPlaceholder {motive : List Char → Prop} (some : placeholder ≠ []) (empty : motive [])
    (found : ∀ rest, motive rest → motive (placeholder ++ rest))
    (other : ∀ c rest, ¬ placeholder <+: c :: rest → motive rest → motive (c :: rest))
    (text : List Char) : motive text := by
  induction length : text.length using Nat.strongRecOn generalizing text with
  | ind size inductionHypothesis =>
    by_cases starts : placeholder <+: text
    · obtain ⟨rest, rfl⟩ := starts
      have shorter : rest.length < size := by
        have positive := List.length_pos_iff.mpr some
        rw [List.length_append] at length
        omega
      exact found rest (inductionHypothesis _ shorter rest rfl)
    · cases text with
      | nil => exact empty
      | cons c rest =>
        have shorter : rest.length < size := by
          rw [← length, List.length_cons]
          exact Nat.lt_succ_self _
        exact other c rest starts (inductionHypothesis _ shorter rest rfl)

/-- A text is made up of pieces without the placeholder, with the placeholder between them. The
text filled is made up of the same pieces, with the filling between them. -/
theorem exists_pieces (some : placeholder ≠ []) (text : List Char) :
    ∃ first others, text = placeholder.intercalate (first :: others) ∧
      (∀ filling, fill placeholder filling text = filling.intercalate (first :: others)) ∧
      ∀ piece ∈ first :: others, ¬ placeholder <:+: piece := by
  induction text using byPlaceholder some with
  | empty => exact ⟨[], [], rfl, fun _ => rfl, by simpa using some⟩
  | found rest inductionHypothesis =>
    obtain ⟨first, others, whole, filled, free⟩ := inductionHypothesis
    refine ⟨[], first :: others, ?_, fun filling => ?_, ?_⟩
    · rw [List.intercalate_cons_cons, ← whole, List.nil_append]
    · rw [fill_placeholder_append some, filled, List.intercalate_cons_cons, List.nil_append]
    · simpa [some] using free
  | other c rest absent inductionHypothesis =>
    obtain ⟨first, others, whole, filled, free⟩ := inductionHypothesis
    have joined : ∀ separator : List Char, separator.intercalate ((c :: first) :: others) =
        c :: separator.intercalate (first :: others) := by
      intro separator
      cases others <;> simp
    have start : first <+: rest := by
      rw [whole]
      cases others with
      | nil => simp
      | cons second others =>
        rw [List.intercalate_cons_cons, List.append_assoc]
        exact List.prefix_append ..
    refine ⟨c :: first, others, ?_, fun filling => ?_, ?_⟩
    · rw [joined, ← whole]
    · rw [fill_cons absent, filled, joined]
    · intro piece member within
      rcases List.mem_cons.mp member with rfl | later
      · rcases List.infix_cons_iff.mp within with here | behind
        · exact absent (here.trans (List.cons_prefix_cons.mpr ⟨rfl, start⟩))
        · exact free first (by simp) behind
      · exact free piece (by simp [later]) within

/-- A longer separator makes a longer text of two or more pieces. -/
theorem length_intercalate_lt {shorter longer : List Char} (less : shorter.length < longer.length)
    (first second : List Char) (others : List (List Char)) :
    (shorter.intercalate (first :: second :: others)).length <
      (longer.intercalate (first :: second :: others)).length := by
  induction others generalizing first second with
  | nil => simpa using less
  | cons third others inductionHypothesis =>
    have behind := inductionHypothesis second third
    simp only [List.intercalate_cons_cons, List.length_append] at behind ⊢
    omega

/-- A character in none of some pieces, nor between them, is not in the text that they make up. -/
theorem not_mem_intercalate {c : Char} {separator : List Char} {pieces : List (List Char)}
    (between : c ∉ separator) (each : ∀ piece ∈ pieces, c ∉ piece) :
    c ∉ separator.intercalate pieces := by
  induction pieces with
  | nil => simp
  | cons piece rest inductionHypothesis =>
    have first := each piece (by simp)
    have others := inductionHypothesis fun other member => each other (by simp [member])
    cases rest with
    | nil => simpa using first
    | cons next rest => simp [List.intercalate_cons_cons, first, between, others]

/-- Two or more pieces tell what stands between them. -/
theorem intercalate_inj {separator other : List Char} {first second : List Char}
    {others : List (List Char)}
    (same : separator.intercalate (first :: second :: others) =
      other.intercalate (first :: second :: others)) : separator = other := by
  have lengths : separator.length = other.length := by
    rcases Nat.lt_trichotomy separator.length other.length with less | equal | greater
    · exact absurd (congrArg List.length same)
        (Nat.ne_of_lt (length_intercalate_lt less first second others))
    · exact equal
    · exact absurd (congrArg List.length same)
        (Nat.ne_of_gt (length_intercalate_lt greater first second others))
  simp only [List.intercalate_cons_cons, List.append_assoc] at same
  exact (List.append_inj (List.append_cancel_left same) lengths).1

/-- A text stays as it is when it is filled exactly if the placeholder does not occur in it, or
is filled with itself. -/
theorem fill_eq_self_iff (some : placeholder ≠ []) {text : List Char} :
    fill placeholder filling text = text ↔ ¬ placeholder <:+: text ∨ filling = placeholder := by
  obtain ⟨first, others, whole, filled, free⟩ := exists_pieces some text
  rw [filled]
  cases others with
  | nil =>
    rw [List.intercalate_singleton] at whole ⊢
    subst whole
    simpa using .inl (free text (by simp))
  | cons second others =>
    have occurs : placeholder <:+: text := by
      rw [whole, List.intercalate_cons_cons]
      exact List.infix_append ..
    constructor
    · intro same
      rw [whole] at same
      exact .inr (intercalate_inj same)
    · rintro (absent | rfl)
      · exact absurd occurs absent
      · exact whole.symm

/-- A character that the placeholder does not have cuts a text into two that are filled apart. -/
theorem fill_append_cons (some : placeholder ≠ []) {c : Char} (foreign : c ∉ placeholder)
    (before behind : List Char) :
    fill placeholder filling (before ++ c :: behind) =
      fill placeholder filling before ++ c :: fill placeholder filling behind := by
  -- An occurrence that starts before the character ends before it, too.
  have within : ∀ start : List Char, placeholder <+: start ++ c :: behind →
      placeholder <+: start := by
    intro start found
    rcases Nat.lt_or_ge start.length placeholder.length with longer | fits
    · have reached : start ++ [c] <+: placeholder := by
        refine List.prefix_of_prefix_length_le ?_ found (by simpa [Nat.succ_le_iff] using longer)
        exact ⟨behind, by simp⟩
      exact absurd (reached.subset (by simp)) foreign
    · exact List.prefix_of_prefix_length_le found (List.prefix_append ..) fits
  induction before using byPlaceholder some with
  | empty =>
    have absent : ¬ placeholder <+: c :: behind := fun found =>
      some (List.prefix_nil.mp (within [] found))
    rw [List.nil_append, fill_cons absent]
    rfl
  | found rest inductionHypothesis =>
    rw [List.append_assoc, fill_placeholder_append some, fill_placeholder_append some,
      inductionHypothesis, List.append_assoc]
  | other first rest absent inductionHypothesis =>
    have still : ¬ placeholder <+: first :: (rest ++ c :: behind) :=
      fun found => absent (within (first :: rest) found)
    rw [List.cons_append, fill_cons still, fill_cons absent, inductionHypothesis, List.cons_append]

end Filling

/-- The characters of a marker that are still to be dropped are dropped. -/
theorem dropLeadingFrom_eq_drop (marker : List Char) (skip : Nat) (text : List Char) :
    dropLeadingFrom marker skip text = dropLeading marker (text.drop skip) := by
  induction text generalizing skip with
  | nil => simp [dropLeading, dropLeadingFrom]
  | cons c rest inductionHypothesis =>
    cases skip with
    | zero => rfl
    | succ skip => exact inductionHypothesis skip

/-- A text is made up of copies of a marker and what is left when they are dropped, which does
not start with the marker. -/
theorem exists_copies {marker : List Char} (some : marker ≠ []) (text : List Char) :
    ∃ copies, text = (List.replicate copies marker).flatten ++ dropLeading marker text ∧
      ¬ marker <+: dropLeading marker text := by
  induction text using byPlaceholder some with
  | empty => exact ⟨0, rfl, by simpa [dropLeading, dropLeadingFrom] using some⟩
  | found rest inductionHypothesis =>
    obtain ⟨copies, whole, free⟩ := inductionHypothesis
    have dropped : dropLeading marker (marker ++ rest) = dropLeading marker rest := by
      obtain ⟨c, others, rfl⟩ := List.exists_cons_of_ne_nil some
      have found : (c :: others).isPrefixOf (c :: (others ++ rest)) = true :=
        List.isPrefixOf_iff_prefix.mpr ⟨rest, rfl⟩
      rw [dropLeading, List.cons_append, dropLeadingFrom, if_pos found, dropLeadingFrom_eq_drop]
      simp
    refine ⟨copies + 1, ?_, dropped ▸ free⟩
    rw [dropped, List.replicate_succ, List.flatten_cons, List.append_assoc, ← whole]
  | other c rest absent =>
    have kept : dropLeading marker (c :: rest) = c :: rest := by
      rw [dropLeading, dropLeadingFrom, if_neg (mt List.isPrefixOf_iff_prefix.mp absent)]
    exact ⟨0, kept.symm, by rwa [kept]⟩

end Treescribe.Text
