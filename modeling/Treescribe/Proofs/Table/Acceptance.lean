import Treescribe.Proofs.Table.Checks

/-!
# Which tables are programs

A table is a program exactly when it is well formed. Otherwise it breaks several
rules as a rule, and `FirstBroken` says which one is reported: ids before parents,
parents before the root, the root before the contents, ids and parents in table order
and contents in preorder. Rows that are not reached from the root are held to the
rules of ids and parents only.
-/

namespace Treescribe.Table

/-- The rules of a table: ids of their own, parents that are there, one root, which is
a program, and a complete row for every node below it. -/
structure WellFormed (rows : List Row) : Prop extends OwnIds rows where
  parents : ∀ row ∈ rows, row.parent ≠ 0 → ∃ parent ∈ rows, parent.id = row.parent
  root : ∃ root, childRows rows 0 = [root] ∧ root.kind = Kind.program.spelling ∧
    ∀ row, Reaches rows root row → row ≠ root → row.Complete

/-- The first rule that a table breaks. -/
inductive FirstBroken (rows : List Row) : TableError → Prop where
  /-- The earliest row with the reserved id or the id of an earlier row. -/
  | id {before after : List Row} {row : Row} {error : TableError}
      (place : rows = before ++ row :: after) (earlier : OwnIds before)
      (bad : BadId (before.map (·.id)) row error) : FirstBroken rows error
  /-- The earliest row with a missing parent. -/
  | parent {before after : List Row} {row : Row} (ids : OwnIds rows)
      (place : rows = before ++ row :: after)
      (earlier : ∀ other ∈ before, ¬ Dangling rows other) (dangling : Dangling rows row) :
      FirstBroken rows (.danglingParent row.id row.parent)
  | missingRoot (ids : OwnIds rows) (parents : ∀ row ∈ rows, ¬ Dangling rows row)
      (none : childRows rows 0 = []) : FirstBroken rows .missingRoot
  | multipleRoots (ids : OwnIds rows) (parents : ∀ row ∈ rows, ¬ Dangling rows row)
      (several : 1 < (childRows rows 0).length) :
      FirstBroken rows (.multipleRoots (childRows rows 0).length)
  | unexpectedRoot {root : Row} (rooted : Rooted rows root)
      (parents : ∀ row ∈ rows, ¬ Dangling rows row)
      (other : root.kind ≠ Kind.program.spelling) :
      FirstBroken rows (.unexpectedRoot root.id root.kind)
  /-- The first incomplete row below the root, in preorder. -/
  | content {root row : Row} {before after : List Row} {error : TableError}
      (rooted : Rooted rows root) (parents : ∀ row ∈ rows, ¬ Dangling rows row)
      (program : root.kind = Kind.program.spelling)
      (place : preorder rows root = root :: before ++ row :: after)
      (earlier : ∀ other ∈ before, other.Complete) (defect : row.Defect error) :
      FirstBroken rows error

/-- A row that does not dangle has its parent in the table. -/
theorem not_dangling_iff {rows : List Row} {row : Row} :
    ¬ Dangling rows row ↔ (row.parent ≠ 0 → ∃ parent ∈ rows, parent.id = row.parent) := by
  simp [Dangling]

namespace Rooted

variable {rows : List Row} {root : Row}

/-- The rows below the root, in preorder. -/
theorem preorder_root (rooted : Rooted rows root) :
    preorder rows root = root :: (childRows rows root.id).flatMap (preorder rows) :=
  rooted.preorder_eq .refl

/-- The trees under the root can be built exactly when every other reachable row is
complete. -/
theorem trees_eq_ok_iff (rooted : Rooted rows root) :
    (∃ children, (childRows rows root.id).mapM (tree rows) = .ok children) ↔
      ∀ row, Reaches rows root row → row ≠ root → row.Complete := by
  have distinct := rooted.preorder_nodup .refl
  rw [rooted.preorder_root] at distinct
  have below : ∀ row, row ∈ (childRows rows root.id).flatMap (preorder rows) ↔
      Reaches rows root row ∧ row ≠ root := by
    intro row
    rw [← rooted.mem_preorder_iff .refl, rooted.preorder_root, List.mem_cons]
    constructor
    · intro member
      exact ⟨.inr member, fun same => (List.nodup_cons.mp distinct).1 (same ▸ member)⟩
    · rintro ⟨same | member, different⟩
      · exact absurd same different
      · exact member
  rw [← failure?_eq_none_iff, rooted.failure?_trees .refl, List.findSome?_eq_none_iff]
  constructor
  · intro succeeds row reaches different
    have built := succeeds row ((below row).mpr ⟨reaches, different⟩)
    exact Row.content_eq_ok_iff.mp (failure?_eq_none_iff.mp built)
  · intro complete row member
    obtain ⟨reaches, different⟩ := (below row).mp member
    exact failure?_eq_none_iff.mpr (Row.content_eq_ok_iff.mpr (complete row reaches different))

/-- Building the trees under the root reports the first incomplete row in preorder. -/
theorem trees_eq_error_iff (rooted : Rooted rows root) {error : TableError} :
    (childRows rows root.id).mapM (tree rows) = .error error ↔
      ∃ before row after, preorder rows root = root :: before ++ row :: after ∧
        (∀ other ∈ before, other.Complete) ∧ row.Defect error := by
  rw [← failure?_eq_some_iff, rooted.failure?_trees .refl, List.findSome?_eq_some_iff,
    rooted.preorder_root]
  simp only [failure?_eq_some_iff, Row.content_eq_error_iff, failure?_eq_none_iff,
    Row.content_eq_ok_iff, List.cons_append, List.cons.injEq, true_and]
  constructor
  · rintro ⟨before, row, after, place, defect, earlier⟩
    exact ⟨before, row, after, place, earlier, defect⟩
  · rintro ⟨before, row, after, place, earlier, defect⟩
    exact ⟨before, row, after, place, defect, earlier⟩

end Rooted

/-- A table is a program exactly when it is well formed. -/
theorem program_isOk_iff {rows : List Row} :
    (∃ program, Table.program rows = .ok program) ↔ WellFormed rows := by
  simp only [program_eq_ok_iff]
  constructor
  · rintro ⟨program, root, rooted, parents, named, _, built⟩
    exact ⟨rooted.toOwnIds, fun row member => not_dangling_iff.mp (parents row member), root,
      rooted.single, named, rooted.trees_eq_ok_iff.mp ⟨_, built⟩⟩
  · rintro ⟨ids, parents, root, single, named, complete⟩
    have rooted : Rooted rows root := ⟨ids, single⟩
    obtain ⟨children, built⟩ := rooted.trees_eq_ok_iff.mpr complete
    exact ⟨⟨root.id, children⟩, root, rooted,
      fun row member => not_dangling_iff.mpr (parents row member), named, rfl, built⟩

/-- What is reported of a table is the first rule that it breaks. -/
theorem program_eq_error_iff {rows : List Row} {error : TableError} :
    Table.program rows = .error error ↔ FirstBroken rows error := by
  unfold Table.program
  simp only [bind_eq_error_iff, root_eq_ok_iff, pure, Except.pure, reduceCtorEq, and_false,
    exists_false, or_false]
  constructor
  · rintro (failed | ⟨⟨⟩, ids, failed | ⟨⟨⟩, parents, failed | ⟨root, ⟨single, named⟩, failed⟩⟩⟩)
    · obtain ⟨before, row, after, place, fresh, bad⟩ := checkIds_eq_error_iff.mp failed
      exact .id place fresh.1 (by simpa using bad)
    · have own := (checkIds_eq_ok_iff.mp ids).1
      obtain ⟨before, row, after, place, earlier, dangling, rfl⟩ :=
        checkParents_eq_error_iff.mp failed
      exact .parent own place earlier dangling
    · have own := (checkIds_eq_ok_iff.mp ids).1
      have sound := checkParents_eq_ok_iff.mp parents
      obtain ⟨none, rfl⟩ | ⟨several, rfl⟩ | ⟨root, single, other, rfl⟩ :=
        root_eq_error_iff.mp failed
      · exact .missingRoot own sound none
      · exact .multipleRoots own sound several
      · exact .unexpectedRoot ⟨own, single⟩ sound other
    · have rooted : Rooted rows root := ⟨(checkIds_eq_ok_iff.mp ids).1, single⟩
      obtain ⟨before, row, after, place, earlier, defect⟩ := rooted.trees_eq_error_iff.mp failed
      exact .content rooted (checkParents_eq_ok_iff.mp parents) named place earlier defect
  · have accepted : OwnIds rows → checkIds [] rows = .ok () := fun own =>
      checkIds_eq_ok_iff.mpr ⟨own, by simp⟩
    intro broken
    cases broken with
    | id place earlier bad =>
      exact .inl (checkIds_eq_error_iff.mpr
        ⟨_, _, _, place, ⟨earlier, by simp⟩, by simpa using bad⟩)
    | parent ids place earlier dangling =>
      exact .inr ⟨(), accepted ids, .inl (checkParents_eq_error_iff.mpr
        ⟨_, _, _, place, earlier, dangling, rfl⟩)⟩
    | missingRoot ids parents none =>
      exact .inr ⟨(), accepted ids, .inr ⟨(), checkParents_eq_ok_iff.mpr parents,
        .inl (root_eq_error_iff.mpr (.inl ⟨none, rfl⟩))⟩⟩
    | multipleRoots ids parents several =>
      exact .inr ⟨(), accepted ids, .inr ⟨(), checkParents_eq_ok_iff.mpr parents,
        .inl (root_eq_error_iff.mpr (.inr (.inl ⟨several, rfl⟩)))⟩⟩
    | @unexpectedRoot root rooted parents other =>
      exact .inr ⟨(), accepted rooted.toOwnIds, .inr ⟨(), checkParents_eq_ok_iff.mpr parents,
        .inl (root_eq_error_iff.mpr (.inr (.inr ⟨root, rooted.single, other, rfl⟩)))⟩⟩
    | @content root row before after error rooted parents program place earlier defect =>
      exact .inr ⟨(), accepted rooted.toOwnIds, .inr ⟨(), checkParents_eq_ok_iff.mpr parents,
        .inr ⟨root, ⟨rooted.single, program⟩,
          rooted.trees_eq_error_iff.mpr ⟨before, row, after, place, earlier, defect⟩⟩⟩⟩

/-- Every table either is well formed and becomes a program or is reported for the first
rule that it breaks. -/
theorem program_outcome (rows : List Row) :
    ((∃ program, Table.program rows = .ok program) ↔ WellFormed rows) ∧
      ∀ error, Table.program rows = .error error ↔ FirstBroken rows error :=
  ⟨program_isOk_iff, fun _ => program_eq_error_iff⟩

/-- Of a setter without type and name the type is missed. -/
example : Table.program [{ id := 1, kind := "program" },
    { id := 2, parent := 1, kind := "functionSetter" }] =
      .error (.missingField 2 .functionSetter .type) := rfl

end Treescribe.Table
