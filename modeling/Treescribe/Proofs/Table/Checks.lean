import Treescribe.Proofs.Table.Contents
import Treescribe.Proofs.Table.Preorder

/-!
# The checks of a table

What each check of a table accepts, and what it reports otherwise. The ids and the
parents are checked row by row and report the first row that breaks their rule; the
tree is built from the root down and reports the first incomplete row in preorder.
-/

namespace Treescribe.Table

/-- What is wrong with the id of a row, given the ids of the rows before it. -/
inductive BadId (earlier : List UInt64) (row : Row) : TableError → Prop where
  | reserved (zero : row.id = 0) : BadId earlier row .reservedId
  | repeated (nonzero : row.id ≠ 0) (seen : row.id ∈ earlier) :
      BadId earlier row (.duplicateId row.id)

/-- Rows with ids of their own, none of which has been seen. -/
def Fresh (seen : List UInt64) (rows : List Row) : Prop :=
  OwnIds rows ∧ ∀ row ∈ rows, row.id ∉ seen

/-- No rows are fresh. -/
theorem fresh_nil (seen : List UInt64) : Fresh seen [] :=
  ⟨⟨by simp, by simp⟩, by simp⟩

/-- A row before others makes its id a seen one. -/
theorem fresh_cons_iff {seen : List UInt64} {row : Row} {rest : List Row} :
    Fresh seen (row :: rest) ↔ row.id ≠ 0 ∧ row.id ∉ seen ∧ Fresh (row.id :: seen) rest := by
  constructor
  · rintro ⟨own, unseen⟩
    have parts := List.nodup_cons.mp own.distinct
    refine ⟨own.nonzero row (by simp), unseen row (by simp), ⟨?_, parts.2⟩, ?_⟩
    · exact fun other member => own.nonzero other (by simp [member])
    · intro other member seen
      rcases List.mem_cons.mp seen with same | seen
      · exact parts.1 (List.mem_map.mpr ⟨other, member, same⟩)
      · exact unseen other (by simp [member]) seen
  · rintro ⟨nonzero, unseen, own, others⟩
    refine ⟨⟨?_, ?_⟩, ?_⟩
    · simpa using ⟨nonzero, own.nonzero⟩
    · refine List.nodup_cons.mpr ⟨fun member => ?_, own.distinct⟩
      obtain ⟨other, otherMem, same⟩ := List.mem_map.mp member
      exact others other otherMem (by simp [same])
    · intro other member
      rcases List.mem_cons.mp member with rfl | member
      · exact unseen
      · exact fun seen => others other member (by simp [seen])

/-- A row whose id is bad after some ids is bad after more of them. -/
theorem BadId.mono {fewer more : List UInt64} {row : Row} {error : TableError}
    (bad : BadId fewer row error) (included : fewer ⊆ more) : BadId more row error := by
  cases bad with
  | reserved zero => exact .reserved zero
  | repeated nonzero seen => exact .repeated nonzero (included seen)

/-- The ids are accepted exactly when they are fresh. -/
theorem checkIds_eq_ok_iff {seen : List UInt64} {rows : List Row} :
    checkIds seen rows = .ok () ↔ Fresh seen rows := by
  induction rows generalizing seen with
  | nil => exact ⟨fun _ => fresh_nil seen, fun _ => rfl⟩
  | cons row rest inductionHypothesis =>
    rw [fresh_cons_iff]
    by_cases zero : row.id = 0
    · simp [checkIds, zero]
    · by_cases known : row.id ∈ seen
      · simp [checkIds, zero, known]
      · simp [checkIds, zero, known, inductionHypothesis]

/-- The first bad id is reported, where the ids before it are fresh. -/
theorem checkIds_eq_error_iff {seen : List UInt64} {rows : List Row} {error : TableError} :
    checkIds seen rows = .error error ↔
      ∃ before row after, rows = before ++ row :: after ∧ Fresh seen before ∧
        BadId (before.map (·.id) ++ seen) row error := by
  induction rows generalizing seen with
  | nil => simp [checkIds]
  | cons head rest inductionHypothesis =>
    constructor
    · intro failed
      by_cases zero : head.id = 0
      · simp only [checkIds, zero, if_true, Except.error.injEq] at failed
        subst failed
        exact ⟨[], head, rest, rfl, fresh_nil seen, .reserved zero⟩
      · by_cases known : head.id ∈ seen
        · simp only [checkIds, zero, known, if_false, if_true, Except.error.injEq] at failed
          subst failed
          exact ⟨[], head, rest, rfl, fresh_nil seen, .repeated zero known⟩
        · simp only [checkIds, zero, known, if_false] at failed
          obtain ⟨before, row, after, rfl, fresh, bad⟩ := inductionHypothesis.mp failed
          refine ⟨head :: before, row, after, rfl, fresh_cons_iff.mpr ⟨zero, known, fresh⟩, ?_⟩
          exact bad.mono List.perm_middle.subset
    · rintro ⟨before, row, after, split, fresh, bad⟩
      cases before with
      | nil =>
        obtain ⟨rfl, rfl⟩ := List.cons.inj split
        cases bad with
        | reserved zero => simp [checkIds, zero]
        | repeated nonzero known =>
          simp only [List.map_nil, List.nil_append] at known
          simp [checkIds, nonzero, known]
      | cons first before =>
        obtain ⟨rfl, rfl⟩ := List.cons.inj split
        obtain ⟨nonzero, unseen, fresh⟩ := fresh_cons_iff.mp fresh
        simp only [checkIds, nonzero, unseen, if_false]
        refine inductionHypothesis.mpr ⟨before, row, after, rfl, fresh, ?_⟩
        exact bad.mono List.perm_middle.symm.subset

/-- A row names a parent that is not in the table. -/
def Dangling (rows : List Row) (row : Row) : Prop :=
  row.parent ≠ 0 ∧ ∀ other ∈ rows, other.id ≠ row.parent

/-- Dangling rows are recognized. -/
theorem isDangling_iff {rows : List Row} {row : Row} :
    isDangling rows row = true ↔ Dangling rows row := by
  simp [isDangling, Dangling]

/-- The parents are accepted exactly when none of them is missing. -/
theorem checkParents_eq_ok_iff {rows : List Row} :
    checkParents rows = .ok () ↔ ∀ row ∈ rows, ¬ Dangling rows row := by
  unfold checkParents
  cases found : rows.find? (isDangling rows) with
  | none =>
    have none := List.find?_eq_none.mp found
    simpa only [true_iff, ← isDangling_iff] using none
  | some row =>
    have dangling := isDangling_iff.mp (List.find?_some found)
    simp only [reduceCtorEq, false_iff]
    exact fun sound => sound row (List.mem_of_find?_eq_some found) dangling

/-- The first row with a missing parent is reported. -/
theorem checkParents_eq_error_iff {rows : List Row} {error : TableError} :
    checkParents rows = .error error ↔
      ∃ before row after, rows = before ++ row :: after ∧
        (∀ earlier ∈ before, ¬ Dangling rows earlier) ∧ Dangling rows row ∧
        error = .danglingParent row.id row.parent := by
  have found : ∀ row, rows.find? (isDangling rows) = some row ↔
      Dangling rows row ∧ ∃ before after, rows = before ++ row :: after ∧
        ∀ earlier ∈ before, ¬ Dangling rows earlier := by
    intro row
    rw [List.find?_eq_some_iff_append, isDangling_iff]
    simp only [Bool.not_eq_true', ← Bool.not_eq_true, isDangling_iff]
  unfold checkParents
  constructor
  · intro failed
    split at failed
    · next row first =>
      cases failed
      obtain ⟨dangling, before, after, split, earlier⟩ := (found row).mp first
      exact ⟨before, row, after, split, earlier, dangling, rfl⟩
    · cases failed
  · rintro ⟨before, row, after, split, earlier, dangling, rfl⟩
    rw [(found row).mpr ⟨dangling, before, after, split, earlier⟩]

/-- The root is the one row without a parent, if it is a program. -/
theorem root_eq_ok_iff {rows : List Row} {row : Row} :
    root rows = .ok row ↔ childRows rows 0 = [row] ∧ row.kind = Kind.program.spelling := by
  unfold root
  rcases childRows rows 0 with _ | ⟨only, _ | ⟨second, others⟩⟩
  · simp
  · by_cases named : only.kind = Kind.program.spelling
    · simp only [named, beq_self_eq_true, if_true, Except.ok.injEq, List.cons.injEq, and_true]
      constructor
      · rintro rfl
        exact ⟨rfl, named⟩
      · exact fun both => both.1
    · have different : (only.kind == Kind.program.spelling) = false := by simpa using named
      simp only [different, Bool.false_eq_true, if_false, reduceCtorEq, false_iff]
      rintro ⟨single, rowNamed⟩
      cases single
      exact named rowNamed
  · simp

/-- There is no root without a row that has no parent, and none of several counts; a
single one has to be a program. -/
theorem root_eq_error_iff {rows : List Row} {error : TableError} :
    root rows = .error error ↔
      (childRows rows 0 = [] ∧ error = .missingRoot) ∨
      (1 < (childRows rows 0).length ∧ error = .multipleRoots (childRows rows 0).length) ∨
      ∃ row, childRows rows 0 = [row] ∧ row.kind ≠ Kind.program.spelling ∧
        error = .unexpectedRoot row.id row.kind := by
  unfold root
  rcases childRows rows 0 with _ | ⟨only, _ | ⟨second, others⟩⟩
  · simp [eq_comm]
  · by_cases named : only.kind = Kind.program.spelling
    · simp only [named, beq_self_eq_true, if_true, reduceCtorEq, false_iff]
      rintro (⟨empty, _⟩ | ⟨many, _⟩ | ⟨row, single, other, _⟩)
      · cases empty
      · simp at many
      · cases single
        exact other named
    · have different : (only.kind == Kind.program.spelling) = false := by simpa using named
      simp [different, named, eq_comm]
  · simp [eq_comm]

namespace Rooted

variable {rows : List Row} {root row : Row}

/-- The tree of a reachable row fails for the first row of its preorder that has no
content. -/
theorem failure?_tree (rooted : Rooted rows root) (reaches : Reaches rows root row) :
    failure? (tree rows row) = (preorder rows row).findSome? fun row => failure? row.content := by
  refine rooted.downward (motive := fun row => failure? (tree rows row) =
    (preorder rows row).findSome? fun row => failure? row.content) ?_ reaches
  intro row reaches inductionHypothesis
  rw [rooted.tree_eq reaches, rooted.preorder_eq reaches, failure?_bind, List.findSome?_cons,
    findSome?_flatMap]
  cases row.content with
  | error error => rfl
  | ok content =>
    change failure? (_ >>= fun children => pure _) = _
    rw [failure?_bind_pure, failure?_mapM]
    exact findSome?_congr inductionHypothesis

/-- The trees under a reachable row fail for the first row under it, in preorder, that
has no content. -/
theorem failure?_trees (rooted : Rooted rows root) (reaches : Reaches rows root row) :
    failure? ((childRows rows row.id).mapM (tree rows)) =
      ((childRows rows row.id).flatMap (preorder rows)).findSome? fun row =>
        failure? row.content := by
  rw [failure?_mapM, findSome?_flatMap]
  refine findSome?_congr fun child member => ?_
  exact rooted.failure?_tree (reaches.tail (mem_childRows_iff.mp member))

end Rooted

/-- A table is a program exactly when it passes every check and the trees under its
root can be built. -/
theorem program_eq_ok_iff {rows : List Row} {program : Program} :
    Table.program rows = .ok program ↔
      ∃ root, Rooted rows root ∧ (∀ row ∈ rows, ¬ Dangling rows row) ∧
        root.kind = Kind.program.spelling ∧ program.id = root.id ∧
        (childRows rows root.id).mapM (tree rows) = .ok program.children := by
  unfold Table.program
  simp only [bind_eq_ok_iff, root_eq_ok_iff]
  constructor
  · rintro ⟨⟨⟩, ids, ⟨⟩, parents, root, ⟨single, named⟩, children, built, joined⟩
    cases joined
    exact ⟨root, ⟨(checkIds_eq_ok_iff.mp ids).1, single⟩, checkParents_eq_ok_iff.mp parents,
      named, rfl, built⟩
  · rintro ⟨root, rooted, parents, named, same, built⟩
    refine ⟨(), checkIds_eq_ok_iff.mpr ⟨rooted.toOwnIds, by simp⟩, (),
      checkParents_eq_ok_iff.mpr parents, root, ⟨rooted.single, named⟩, program.children,
      built, ?_⟩
    rw [← same]
    rfl

end Treescribe.Table
