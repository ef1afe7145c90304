import Mathlib.Data.List.Nodup
import Mathlib.Logic.Relation
import Treescribe.Proofs.Outcome
import Treescribe.Tree.Table

/-!
# Reachable rows

Rows are reached from the root by following the links of a table downwards. Where
ids are distinct and the root is the one row without a parent, the rows above a
reachable row are determined by it and never repeat, although other rows of the
table may name each other as parents in a circle. No branch is therefore longer
than its table, and going down from the root comes to an end.
-/

namespace Treescribe.Table

/-- A row of the table that names another row as its parent. -/
def HangsUnder (rows : List Row) (parent row : Row) : Prop :=
  row ∈ rows ∧ row.parent = parent.id

/-- A row is reached from another one by following links downwards. -/
abbrev Reaches (rows : List Row) : Row → Row → Prop :=
  Relation.ReflTransGen (HangsUnder rows)

/-- The rows under a row are those that name it. -/
theorem mem_childRows_iff {rows : List Row} {parent row : Row} :
    row ∈ childRows rows parent.id ↔ HangsUnder rows parent row := by
  simp [childRows, HangsUnder]

/-- From a row one reaches the row itself and what is reached from the rows under it. -/
theorem reaches_iff_head {rows : List Row} {row other : Row} :
    Reaches rows row other ↔
      row = other ∨ ∃ child, HangsUnder rows row child ∧ Reaches rows child other :=
  Relation.ReflTransGen.cases_head_iff

/-- Every row has an id of its own, which is not the reserved one. -/
structure OwnIds (rows : List Row) : Prop where
  nonzero : ∀ row ∈ rows, row.id ≠ 0
  distinct : (rows.map (·.id)).Nodup

/-- Every row has an id of its own and exactly one row has no parent. Nothing is said
about the parents of the other rows. -/
structure Rooted (rows : List Row) (root : Row) : Prop extends OwnIds rows where
  single : childRows rows 0 = [root]

/-- The rows on the way down from the root to a row, the nearest one first. -/
inductive Branch (rows : List Row) (root : Row) : Row → List Row → Prop where
  | root : Branch rows root root []
  | child {parent row : Row} {above : List Row} (branch : Branch rows root parent above)
      (hangs : HangsUnder rows parent row) : Branch rows root row (parent :: above)

/-- The rows with a branch are the reachable ones. -/
theorem reaches_iff_branch {rows : List Row} {root row : Row} :
    Reaches rows root row ↔ ∃ above, Branch rows root row above := by
  constructor
  · intro reaches
    induction reaches with
    | refl => exact ⟨[], .root⟩
    | tail _ hangs inductionHypothesis =>
      obtain ⟨above, branch⟩ := inductionHypothesis
      exact ⟨_, .child branch hangs⟩
  · rintro ⟨above, branch⟩
    induction branch with
    | root => exact .refl
    | child _ hangs inductionHypothesis => exact .tail inductionHypothesis hangs

/-- What is reached from a row has a branch that goes through that row. -/
theorem Branch.extend {rows : List Row} {root row other : Row} {above : List Row}
    (branch : Branch rows root row above) (reaches : Reaches rows row other) :
    ∃ between chain, Branch rows root other chain ∧
      other :: chain = between ++ row :: above := by
  induction reaches with
  | refl => exact ⟨[], above, branch, rfl⟩
  | @tail parent child _ hangs inductionHypothesis =>
    obtain ⟨between, chain, upper, same⟩ := inductionHypothesis
    exact ⟨child :: between, parent :: chain, .child upper hangs, by rw [same]; rfl⟩

/-- Every row of a branch has a branch of its own, which is shorter. -/
theorem Branch.above {rows : List Row} {root row other : Row} {above : List Row}
    (branch : Branch rows root row above) (member : other ∈ above) :
    ∃ shorter, Branch rows root other shorter ∧ shorter.length < above.length := by
  induction branch with
  | root => cases member
  | @child parent row above upper hangs inductionHypothesis =>
    rcases List.mem_cons.mp member with rfl | member
    · exact ⟨above, upper, by simp⟩
    · obtain ⟨shorter, branch, less⟩ := inductionHypothesis member
      exact ⟨shorter, branch, Nat.lt_succ_of_lt less⟩

namespace Rooted

variable {rows : List Row} {root row : Row}

/-- The root has no parent and belongs to the table. -/
theorem root_mem (rooted : Rooted rows root) : root ∈ rows ∧ root.parent = 0 := by
  have member : root ∈ childRows rows 0 := by simp [rooted.single]
  simpa [childRows] using member

/-- A row is determined by its id. -/
theorem eq_of_id_eq (rooted : Rooted rows root) {first second : Row} (firstMem : first ∈ rows)
    (secondMem : second ∈ rows) (same : first.id = second.id) : first = second :=
  List.inj_on_of_nodup_map rooted.distinct firstMem secondMem same

/-- Only rows of the table are reached. -/
theorem mem_of_reaches (rooted : Rooted rows root) (reaches : Reaches rows root row) :
    row ∈ rows := by
  cases reaches with
  | refl => exact rooted.root_mem.1
  | tail _ hangs => exact hangs.1

/-- A row has one branch only: its parent is determined by its id, and the root is
under no row. -/
theorem branch_unique (rooted : Rooted rows root) {above other : List Row}
    (first : Branch rows root row above) (second : Branch rows root row other) :
    above = other := by
  have noParent : ∀ {parent above}, Branch rows root parent above →
      ¬ HangsUnder rows parent root := by
    intro parent above branch hangs
    have member := rooted.mem_of_reaches (reaches_iff_branch.mpr ⟨above, branch⟩)
    exact rooted.nonzero parent member (hangs.2.symm.trans rooted.root_mem.2)
  induction first generalizing other with
  | root =>
    cases second with
    | root => rfl
    | child upper hangs => exact absurd hangs (noParent upper)
  | child upper hangs inductionHypothesis =>
    cases second with
    | root => exact absurd hangs (noParent upper)
    | child otherUpper otherHangs =>
      have same := rooted.eq_of_id_eq
        (rooted.mem_of_reaches (reaches_iff_branch.mpr ⟨_, upper⟩))
        (rooted.mem_of_reaches (reaches_iff_branch.mpr ⟨_, otherUpper⟩))
        (hangs.2.symm.trans otherHangs.2)
      subst same
      rw [inductionHypothesis otherUpper]

/-- No row comes twice on a branch. -/
theorem branch_nodup (rooted : Rooted rows root) {above : List Row}
    (branch : Branch rows root row above) : (row :: above).Nodup := by
  induction branch with
  | root => simp
  | @child parent row above upper hangs inductionHypothesis =>
    refine List.nodup_cons.mpr ⟨fun member => ?_, inductionHypothesis⟩
    -- A row above itself would have two branches of different lengths.
    obtain ⟨shorter, branch, less⟩ := (Branch.child upper hangs).above member
    rw [rooted.branch_unique branch (.child upper hangs)] at less
    exact Nat.lt_irrefl _ less

/-- A branch is shorter than the table. -/
theorem branch_length_lt (rooted : Rooted rows root) {above : List Row}
    (branch : Branch rows root row above) : above.length < rows.length := by
  have inside : row :: above ⊆ rows := by
    intro other member
    rcases List.mem_cons.mp member with rfl | member
    · exact rooted.mem_of_reaches (reaches_iff_branch.mpr ⟨_, branch⟩)
    · obtain ⟨shorter, branch, _⟩ := branch.above member
      exact rooted.mem_of_reaches (reaches_iff_branch.mpr ⟨_, branch⟩)
  have bounded := (rooted.branch_nodup branch).length_le_of_subset inside
  simpa [Nat.succ_le_iff] using bounded

/-- What holds of a row whenever it holds of the rows under it holds of every
reachable row: going down comes to an end. -/
theorem downward (rooted : Rooted rows root) {motive : Row → Prop}
    (step : ∀ row, Reaches rows root row →
      (∀ child ∈ childRows rows row.id, motive child) → motive row)
    (reaches : Reaches rows root row) : motive row := by
  obtain ⟨above, branch⟩ := reaches_iff_branch.mp reaches
  -- The induction is on the number of rows that a longer branch could still have.
  induction remaining : rows.length - above.length generalizing row above with
  | zero =>
    have shorter := rooted.branch_length_lt branch
    omega
  | succ remaining inductionHypothesis =>
    refine step row reaches fun child member => ?_
    have hangs := mem_childRows_iff.mp member
    refine inductionHypothesis (reaches.tail hangs) (row :: above) (.child branch hangs) ?_
    simp only [List.length_cons]
    omega

end Rooted

end Treescribe.Table
