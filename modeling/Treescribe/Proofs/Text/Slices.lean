import Mathlib.Data.List.TakeWhile
import Treescribe.Proofs.Text.Offsets

/-!
# Slices by byte offsets

A part of a text may be cut out between two byte offsets. The offsets have to be in order and
within the text, and each has to lie between two characters or at an end: inside a character
there is nothing to cut. Whatever offsets are computed, a slice is shown to exist by naming
what stands before it and behind it.
-/

namespace Treescribe.Text

/-- Offsets between which a text can be cut: in order, within the text, and both at the
boundary of a character. -/
structure InBounds (text : List Char) (start stop : Nat) : Prop where
  ordered : start ≤ stop
  within : stop ≤ byteLength text
  startBoundary : String.Pos.Raw.IsValid (String.ofList text) ⟨start⟩
  stopBoundary : String.Pos.Raw.IsValid (String.ofList text) ⟨stop⟩

instance (text : List Char) (start stop : Nat) : Decidable (InBounds text start stop) :=
  decidable_of_iff
    (start ≤ stop ∧ stop ≤ byteLength text ∧
      String.Pos.Raw.IsValid (String.ofList text) ⟨start⟩ ∧
      String.Pos.Raw.IsValid (String.ofList text) ⟨stop⟩)
    ⟨fun ⟨ordered, within, startBoundary, stopBoundary⟩ =>
        ⟨ordered, within, startBoundary, stopBoundary⟩,
      fun ⟨ordered, within, startBoundary, stopBoundary⟩ =>
        ⟨ordered, within, startBoundary, stopBoundary⟩⟩

/-- The slice of a text between two offsets, if it can be cut there. -/
def slice? (text : List Char) (start stop : Nat) : Option (List Char) :=
  if bounds : InBounds text start stop then
    some (String.extract (String.pos (String.ofList text) ⟨start⟩ bounds.startBoundary)
      (String.pos (String.ofList text) ⟨stop⟩ bounds.stopBoundary)).toList
  else none

/-- Behind any part in front of a text there is a boundary. -/
theorem boundary_append (front behind : List Char) :
    String.Pos.Raw.IsValid (String.ofList (front ++ behind)) ⟨byteLength front⟩ := by
  rw [String.Pos.Raw.isValid_ofList]
  exact ⟨front.length, by rw [List.take_left]; rfl⟩

/-- A text can be cut around any of its parts. -/
theorem inBounds_append (front part behind : List Char) :
    InBounds (front ++ part ++ behind) (byteLength front) (byteLength (front ++ part)) where
  ordered := by simp
  within := by simp
  startBoundary := by
    rw [List.append_assoc]
    exact boundary_append front (part ++ behind)
  stopBoundary := boundary_append (front ++ part) behind

/-- What is cut around a part is that part. -/
theorem slice?_append (front part behind : List Char) :
    slice? (front ++ part ++ behind) (byteLength front) (byteLength (front ++ part)) =
      some part := by
  have bytes : ∀ text, byteLength text = (String.ofList text).toByteArray.size := fun text =>
    String.size_toByteArray.symm
  rw [slice?, dif_pos (inBounds_append front part behind), Option.some.injEq]
  apply String.ofList_injective
  rw [String.ofList_toList, ← String.toByteArray_inj, String.toByteArray_extract,
    String.offset_pos, String.offset_pos, String.ofList_append, String.toByteArray_append,
    bytes (front ++ part), ByteArray.extract_append_size_left, String.ofList_append,
    String.toByteArray_append]
  exact ByteArray.extract_append_eq_right (bytes front) ByteArray.size_append

/-- Inside a character there is nothing to cut. -/
example : slice? ['é', 'a'] 1 3 = none ∧ slice? ['é', 'a'] 2 3 = some ['a'] := by decide

/-- A text can be cut behind a part in front of it. -/
theorem slice?_front (part behind : List Char) :
    slice? (part ++ behind) 0 (byteLength part) = some part :=
  slice?_append [] part behind

/-- A text can be cut before a part at its end. -/
theorem slice?_behind (front part : List Char) :
    slice? (front ++ part) (byteLength front) (byteLength (front ++ part)) = some part := by
  have whole := slice?_append front part []
  rwa [List.append_nil] at whole

/-- The offset of the first character of a class. -/
def offsetOf? (holds : Char → Bool) : List Char → Option Nat
  | [] => none
  | c :: rest => if holds c then some 0 else (offsetOf? holds rest).map (c.utf8Size + ·)

/-- The first character of a class stands behind all those before it that are not of the
class. -/
theorem offsetOf?_eq (holds : Char → Bool) (text : List Char) :
    offsetOf? holds text =
      if text.any holds then some (byteLength (text.takeWhile fun c => !holds c)) else none := by
  induction text with
  | nil => rfl
  | cons c rest inductionHypothesis =>
    by_cases first : holds c
    · simp [offsetOf?, first]
    · rw [offsetOf?, if_neg first, inductionHypothesis]
      by_cases later : rest.any holds <;> simp [first, later]

/-- What stands before the first character of a class, or the whole text if it has none, can be
cut off. -/
theorem slice?_before (holds : Char → Bool) (text : List Char) :
    slice? text 0 ((offsetOf? holds text).getD (byteLength text)) =
      some (text.takeWhile fun c => !holds c) := by
  have stop : (offsetOf? holds text).getD (byteLength text) =
      byteLength (text.takeWhile fun c => !holds c) := by
    rw [offsetOf?_eq]
    split
    · rfl
    · rename_i none
      have whole : text.takeWhile (fun c => !holds c) = text := by
        rw [List.takeWhile_eq_self_iff]
        simpa using none
      rw [whole]
      rfl
  have cut := slice?_front (text.takeWhile fun c => !holds c) (text.dropWhile fun c => !holds c)
  rwa [List.takeWhile_append_dropWhile, ← stop] at cut

end Treescribe.Text
