import Mathlib.Data.List.Forall2
import Treescribe.Chain.Code

/-!
# Composition of chains

A chain is written in a loop over its segments, with a dot behind each but the last, which comes
to joining texts that the segments have by themselves. Names that are declared in the body around
a chain are only reported: a declared name and the part of a path are written alike, and a known
class comes before both. So what a chain is written as does not depend on where it stands, and a
chain can be cut and joined between any two segments.
-/

namespace Treescribe

/-- What a segment is written as: the construction of a known class, with or without arguments, a
call, or a name. -/
inductive Segment.Spelled (layout : Layout) (classes : List String) :
    Segment → String → Prop where
  | construction {segment : Segment} (known : segment.name ∈ classes) :
      Spelled layout classes segment
        ("new " ++ segment.name ++ "(" ++ Value.codes layout (segment.arguments.getD []) ++ ")")
  | call {segment : Segment} {arguments : List String} (unknown : segment.name ∉ classes)
      (called : segment.arguments = some arguments) :
      Spelled layout classes segment (segment.name ++ "(" ++ Value.codes layout arguments ++ ")")
  | name {segment : Segment} (unknown : segment.name ∉ classes)
      (plain : segment.arguments = none) :
      Spelled layout classes segment segment.name

namespace Segment

variable {layout : Layout} {classes : List String} {segment : Segment}

/-- Apart from a known class, it makes no difference what a segment refers to. -/
theorem code_resolve (layout : Layout) (classes : List String) (frame : Option Frame)
    (segment : Segment) :
    segment.code layout (segment.resolve classes frame) =
      segment.code layout (if segment.name ∈ classes then .construction else .pathSegment) := by
  unfold resolve
  split_ifs with known declared
  · rfl
  · unfold code
    cases segment.arguments <;> rfl
  · rfl

/-- Each segment is written in one way. -/
theorem spelled_iff {text : String} :
    Spelled layout classes segment text ↔
      segment.code layout (if segment.name ∈ classes then .construction else .pathSegment) =
        text := by
  constructor
  · rintro (known | ⟨unknown, called⟩ | ⟨unknown, plain⟩)
    · simp [code, known]
    · simp [code, unknown, called]
    · simp [code, unknown, plain]
  · rintro rfl
    by_cases known : segment.name ∈ classes
    · simpa [code, known] using Spelled.construction known
    · cases arguments : segment.arguments with
      | none => simpa [code, known, arguments] using Spelled.name known arguments
      | some texts => simpa [code, known, arguments] using Spelled.call known arguments

end Segment

namespace Chain

variable {layout : Layout} {classes : List String}

/-- The texts of the segments of a chain. -/
def texts (layout : Layout) (classes : List String) (frame : Option Frame)
    (segments : List Segment) : List String :=
  segments.map fun segment => segment.code layout (segment.resolve classes frame)

/-- The loop has joined the texts of the segments that it has passed, with one more dot unless
these are all. -/
theorem fold_writeSegment (layout : Layout) (classes : List String) (frame : Option Frame)
    (segments : List Segment) {count : Nat} (within : count ≤ segments.length) :
    count.fold (fun index passed => writeSegment layout classes frame segments index
        (Nat.lt_of_lt_of_le passed within)) "" =
      ".".intercalate ((texts layout classes frame segments).take count) ++
        if 0 < count ∧ count < segments.length then "." else "" := by
  induction count with
  | zero => simp
  | succ count inductionHypothesis =>
    have inside : count < (texts layout classes frame segments).length := by
      rw [texts, List.length_map]
      exact within
    have text : (texts layout classes frame segments)[count] =
        segments[count].code layout (segments[count].resolve classes frame) := by
      simp [texts]
    -- The dot that is there already separates the segment from those before it.
    have joined : ".".intercalate ((texts layout classes frame segments).take count) ++
        (if 0 < count ∧ count < segments.length then "." else "") ++
          (texts layout classes frame segments)[count] =
        ".".intercalate ((texts layout classes frame segments).take (count + 1)) := by
      rw [List.take_succ_eq_append_getElem inside]
      rcases Nat.eq_zero_or_pos count with rfl | positive
      · simp
      · have begun : (texts layout classes frame segments).take count ≠ [] := by
          rw [← List.length_pos_iff, List.length_take]
          omega
        rw [String.intercalate_append_of_ne_nil begun (by simp), if_pos ⟨positive, within⟩,
          String.intercalate_singleton]
    rw [Nat.fold_succ, inductionHypothesis (Nat.le_of_succ_le within), writeSegment, ← text,
      joined]
    simp only [Nat.succ_pos, true_and]
    split_ifs <;> simp

/-- A chain is the join of the texts of its segments. -/
theorem code_eq_intercalate (layout : Layout) (classes : List String) (frame : Option Frame)
    (segments : List Segment) :
    code layout classes frame segments =
      ".".intercalate (texts layout classes frame segments) := by
  have whole := fold_writeSegment layout classes frame segments (Nat.le_refl _)
  have all : (texts layout classes frame segments).take segments.length =
      texts layout classes frame segments := List.take_of_length_le (by simp [texts])
  rw [all, if_neg fun both => Nat.lt_irrefl _ both.2, String.append_empty] at whole
  exact whole

/-- The segments of a chain are written one by one. -/
theorem spelled_iff {segments : List Segment} {texts : List String} :
    List.Forall₂ (Segment.Spelled layout classes) segments texts ↔
      segments.map (fun segment =>
        segment.code layout (if segment.name ∈ classes then .construction else .pathSegment)) =
          texts := by
  have same : Segment.Spelled layout classes = fun segment text =>
      segment.code layout (if segment.name ∈ classes then .construction else .pathSegment) =
        text := by
    ext segment text
    exact Segment.spelled_iff
  rw [same, ← List.forall₂_eq_eq_eq, List.forall₂_map_left_iff]

/-- A chain is the join of what its segments are written as. -/
theorem code_of_spelled {segments : List Segment} {texts : List String}
    (spelled : List.Forall₂ (Segment.Spelled layout classes) segments texts)
    (frame : Option Frame) : code layout classes frame segments = ".".intercalate texts := by
  rw [← spelled_iff.mp spelled, code_eq_intercalate]
  exact congrArg (".".intercalate)
    (List.map_congr_left fun segment _ => segment.code_resolve layout classes frame)

section Composition

variable (layout : Layout) (classes : List String)

/-- The body around a chain has no part in its text. -/
theorem code_frames (frame other : Option Frame) (segments : List Segment) :
    code layout classes frame segments = code layout classes other segments := by
  have spelled : List.Forall₂ (Segment.Spelled layout classes) segments _ := spelled_iff.mpr rfl
  rw [code_of_spelled spelled frame, code_of_spelled spelled other]

end Composition

end Chain

end Treescribe
