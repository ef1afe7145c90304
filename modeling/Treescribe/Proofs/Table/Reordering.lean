import Mathlib.Data.List.FinRange
import Mathlib.Data.List.Perm.Basic
import Mathlib.Logic.Equiv.Basic
import Treescribe.Proofs.Table.Checks

/-!
# Tables in another order

The rows of a table may stand in any order, as long as rows with the same parent keep
theirs: children may come before their parents, and the rows of different subtrees may be
mixed. Such a table has the same rows under every parent, so the same tree is built from
it and the same incomplete row is met first. Only the checks of ids and parents follow the
table row by row, and may report another row.
-/

namespace Treescribe

/-- The rules that are checked row by row in table order. -/
def TableError.RowByRow : TableError → Prop
  | .reservedId | .duplicateId _ | .danglingParent _ _ => True
  | _ => False

namespace Table

/-- A table with the rows of another one in other places, where rows with the same parent
keep their order. -/
structure Reordered (rows other : List Row) (place : Fin rows.length ≃ Fin other.length) :
    Prop where
  same : ∀ index, other.get (place index) = rows.get index
  ordered : ∀ first second, first < second →
    (rows.get first).parent = (rows.get second).parent → place first < place second

namespace Reordered

variable {rows other : List Row} {place : Fin rows.length ≃ Fin other.length}

/-- The rows are the same. -/
theorem perm (reordered : Reordered rows other place) : other.Perm rows := by
  have places : (List.finRange other.length).Perm ((List.finRange rows.length).map place) := by
    apply (List.perm_ext_iff_of_nodup (List.nodup_finRange _)
      ((List.nodup_finRange _).map place.injective)).mpr
    intro index
    simpa using place.surjective index
  have listed := places.map other.get
  rw [List.map_get_finRange, List.map_map] at listed
  have kept : other.get ∘ place = rows.get := funext reordered.same
  rwa [kept, List.map_get_finRange] at listed

/-- The rows under a parent are the same, and in the same order. -/
theorem childRows_eq (reordered : Reordered rows other place) (parent : UInt64) :
    childRows other parent = childRows rows parent := by
  let hangs : Row → Bool := fun row => row.parent == parent
  -- The places of these rows in both tables are increasing, so they correspond one by one.
  let before := (List.finRange rows.length).filter (hangs ∘ rows.get)
  let after := (List.finRange other.length).filter (hangs ∘ other.get)
  have increasing : (before.map place).Pairwise (· < ·) := by
    apply List.pairwise_map.mpr
    apply ((List.pairwise_lt_finRange _).filter _).imp_of_mem
    intro first second firstMem secondMem less
    apply reordered.ordered first second less
    have firstHangs : (rows.get first).parent = parent := by simpa [hangs] using firstMem
    have secondHangs : (rows.get second).parent = parent := by simpa [hangs] using secondMem
    rw [firstHangs, secondHangs]
  have increasingAfter : after.Pairwise (· < ·) := (List.pairwise_lt_finRange _).filter _
  have members : ∀ index, index ∈ after ↔ index ∈ before.map place := by
    intro index
    obtain ⟨source, rfl⟩ := place.surjective index
    rw [List.mem_map_of_injective place.injective]
    simp only [before, after, List.mem_filter, List.mem_finRange, true_and, Function.comp_apply,
      reordered.same]
  have permuted : after.Perm (before.map place) :=
    (List.perm_ext_iff_of_nodup increasingAfter.nodup increasing.nodup).mpr members
  have matched : after = before.map place :=
    permuted.eq_of_pairwise (fun _ _ _ _ less greater => absurd greater (lt_asymm less))
      increasingAfter increasing
  have kept : other.get ∘ place = rows.get := funext reordered.same
  calc childRows other parent
      = after.map other.get := by
        rw [← List.filter_map, List.map_get_finRange]
        rfl
    _ = before.map rows.get := by rw [matched, List.map_map, kept]
    _ = childRows rows parent := by
        rw [← List.filter_map, List.map_get_finRange]
        rfl

end Reordered

/-- A table passes the checks of ids and parents. -/
def Checked (rows : List Row) : Prop :=
  OwnIds rows ∧ ∀ row ∈ rows, ¬ Dangling rows row

/-- A table passes the checks exactly when neither reports a row. -/
theorem checked_iff {rows : List Row} :
    Checked rows ↔ checkIds [] rows = .ok () ∧ checkParents rows = .ok () := by
  rw [checkIds_eq_ok_iff, checkParents_eq_ok_iff]
  simp [Checked, Fresh]

/-- A table that fails a check is reported for a rule that is checked row by row. -/
theorem program_of_not_checked {rows : List Row} (fails : ¬ Checked rows) :
    ∃ error : TableError, error.RowByRow ∧ Table.program rows = .error error := by
  cases ids : checkIds [] rows with
  | error error =>
    obtain ⟨before, row, after, -, -, bad⟩ := checkIds_eq_error_iff.mp ids
    refine ⟨error, ?_, by rw [Table.program, ids]; rfl⟩
    cases bad <;> trivial
  | ok =>
    cases parents : checkParents rows with
    | error error =>
      obtain ⟨before, row, after, -, -, -, rfl⟩ := checkParents_eq_error_iff.mp parents
      exact ⟨.danglingParent row.id row.parent, trivial, by rw [Table.program, ids, parents]; rfl⟩
    | ok => exact absurd (checked_iff.mpr ⟨ids, parents⟩) fails

/-- A subtree depends on nothing but the rows under each parent. -/
theorem subtree_congr {rows other : List Row}
    (same : ∀ parent, childRows other parent = childRows rows parent) (height : Nat) (row : Row) :
    subtree other height row = subtree rows height row := by
  induction height generalizing row with
  | zero => rfl
  | succ height inductionHypothesis =>
    rw [subtree, subtree, same, mapM_congr fun child _ => inductionHypothesis child]

namespace Reordered

variable {rows other : List Row} {place : Fin rows.length ≃ Fin other.length}

/-- A table in another order passes the checks of ids and parents exactly when the table
does. -/
theorem checked_iff (reordered : Reordered rows other place) : Checked other ↔ Checked rows := by
  have members : ∀ row, row ∈ other ↔ row ∈ rows := fun row => reordered.perm.mem_iff
  have ids : OwnIds other ↔ OwnIds rows := by
    constructor
    · rintro ⟨nonzero, distinct⟩
      exact ⟨fun row member => nonzero row ((members row).mpr member),
        (reordered.perm.map _).nodup_iff.mp distinct⟩
    · rintro ⟨nonzero, distinct⟩
      exact ⟨fun row member => nonzero row ((members row).mp member),
        (reordered.perm.map _).nodup_iff.mpr distinct⟩
  simp only [Checked, Dangling, ids, members]

/-- What passes the checks is read alike in either order. -/
theorem program_eq (reordered : Reordered rows other place) (checked : Checked rows) :
    Table.program other = Table.program rows := by
  obtain ⟨ids, parents⟩ := Table.checked_iff.mp checked
  obtain ⟨otherIds, otherParents⟩ := Table.checked_iff.mp (reordered.checked_iff.mpr checked)
  have sameRoot : Table.root other = Table.root rows := by
    rw [Table.root, Table.root, reordered.childRows_eq]
  have sameSubtrees : subtree other other.length = subtree rows rows.length := by
    rw [reordered.perm.length_eq]
    exact funext fun row => subtree_congr reordered.childRows_eq _ row
  simp only [Table.program, ids, parents, otherIds, otherParents, sameRoot, sameSubtrees,
    reordered.childRows_eq]

end Reordered

/-- Only the order of rows with the same parent matters: a table in which they keep it is the
same program or breaks the same rule first. Only among the rules that are checked row by row
may it break another one. -/
theorem program_of_reordered {rows other : List Row}
    {place : Fin rows.length ≃ Fin other.length} (reordered : Reordered rows other place) :
    (∀ program, Table.program rows = .ok program ↔ Table.program other = .ok program) ∧
      ∀ error : TableError, ¬ error.RowByRow →
        (Table.program rows = .error error ↔ Table.program other = .error error) := by
  by_cases checked : Checked rows
  · rw [reordered.program_eq checked]
    simp
  · obtain ⟨error, rowByRow, failed⟩ := program_of_not_checked checked
    obtain ⟨otherError, otherRowByRow, otherFailed⟩ :=
      program_of_not_checked (reordered.checked_iff.not.mpr checked)
    rw [failed, otherFailed]
    constructor
    · simp
    · intro reported other
      constructor
      · rintro ⟨⟩
        exact absurd rowByRow other
      · rintro ⟨⟩
        exact absurd otherRowByRow other

/-- Two classes with a function each, every row behind the one it hangs under. -/
def orderlyTable : List Row :=
  [{ id := 1, kind := "program" }, { id := 2, parent := 1, kind := "normalClass", names := ["A"] },
    { id := 3, parent := 2, kind := "normalFunction", names := ["run"] },
    { id := 4, parent := 1, kind := "normalClass", names := ["B"] },
    { id := 5, parent := 4, kind := "functionSetter", names := ["get"] }]

/-- The same rows with the functions before their classes and the root last. -/
def mixedTable : List Row :=
  [{ id := 5, parent := 4, kind := "functionSetter", names := ["get"] },
    { id := 2, parent := 1, kind := "normalClass", names := ["A"] },
    { id := 4, parent := 1, kind := "normalClass", names := ["B"] },
    { id := 3, parent := 2, kind := "normalFunction", names := ["run"] },
    { id := 1, kind := "program" }]

/-- Where the rows of the orderly table stand in the mixed one. -/
def mixing : Fin 5 ≃ Fin 5 :=
  (Equiv.swap 0 4).trans (Equiv.swap 2 3)

/-- The mixed table lacks the same field as the orderly one. -/
theorem program_of_reordered_mixedTable :
    Reordered orderlyTable mixedTable mixing ∧
      Table.program mixedTable = .error (.missingField 5 .functionSetter .type) := by
  have reordered : Reordered orderlyTable mixedTable mixing := ⟨by decide, by decide⟩
  have orderly : Table.program orderlyTable = .error (.missingField 5 .functionSetter .type) := rfl
  exact ⟨reordered, ((program_of_reordered reordered).2 _ id).mp orderly⟩

end Table

end Treescribe
