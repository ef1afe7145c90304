import Treescribe.Proofs.Table.Reachability

/-!
# Trees and preorders of tables

The tree under a row and the preorder of the rows under it are built up to a
height. For the rows that are reached from the root the height of the whole table
is enough, so both obey the recursions that they stand for, `Rooted.tree_eq` and
`Rooted.preorder_eq`. The preorder lists exactly the reached rows, each once.
-/

namespace Treescribe.Table

/-- The tree under a row, built up to the height of the whole table. -/
def tree (rows : List Row) (row : Row) : Except TableError Node :=
  subtree rows rows.length row

/-- The rows under a row, each before those under it, up to a height. -/
def preorderTo (rows : List Row) : (height : Nat) → Row → List Row
  | 0, row => [row]
  | height + 1, row => row :: (childRows rows row.id).flatMap (preorderTo rows height)

/-- The rows under a row, itself first and each before those under it. Rows under
the same row come in table order. -/
def preorder (rows : List Row) (row : Row) : List Row :=
  preorderTo rows rows.length row

namespace Rooted

variable {rows : List Row} {root row : Row}

/-- What is built of a row from what is built of the rows under it, up to a height,
no longer changes once the height has reached the end of every branch. -/
theorem height_enough (rooted : Rooted rows root) {β : Type} {build : Nat → Row → β}
    (local_ : ∀ {first second row},
      (∀ child ∈ childRows rows row.id, build first child = build second child) →
        build (first + 1) row = build (second + 1) row)
    {above : List Row} (branch : Branch rows root row above) {height : Nat}
    (enough : rows.length ≤ above.length + height) :
    build (height + 1) row = build height row := by
  induction height generalizing row above with
  | zero =>
    have shorter := rooted.branch_length_lt branch
    omega
  | succ height inductionHypothesis =>
    refine local_ fun child member => ?_
    refine inductionHypothesis (.child branch (mem_childRows_iff.mp member)) ?_
    simp only [List.length_cons]
    omega

/-- The tree of a reachable row has the content of the row and the trees of the rows
under it, in table order. -/
theorem tree_eq (rooted : Rooted rows root) (reaches : Reaches rows root row) :
    tree rows row = (do
      let content ← row.content
      let children ← (childRows rows row.id).mapM (tree rows)
      return ⟨row.id, content, children⟩) := by
  obtain ⟨above, branch⟩ := reaches_iff_branch.mp reaches
  have higher : subtree rows (rows.length + 1) row = subtree rows rows.length row := by
    refine rooted.height_enough (fun same => ?_) branch (by omega)
    simp only [subtree]
    rw [mapM_congr same]
  exact higher.symm

/-- The preorder of a reachable row is the row and the preorders of the rows under
it, in table order. -/
theorem preorder_eq (rooted : Rooted rows root) (reaches : Reaches rows root row) :
    preorder rows row = row :: (childRows rows row.id).flatMap (preorder rows) := by
  obtain ⟨above, branch⟩ := reaches_iff_branch.mp reaches
  have higher : preorderTo rows (rows.length + 1) row = preorderTo rows rows.length row := by
    refine rooted.height_enough (fun same => ?_) branch (by omega)
    simp only [preorderTo]
    rw [List.flatMap_congr same]
  exact higher.symm

/-- The preorder of a reachable row has exactly the rows reached from it. -/
theorem mem_preorder_iff (rooted : Rooted rows root) (reaches : Reaches rows root row)
    {other : Row} : other ∈ preorder rows row ↔ Reaches rows row other := by
  refine rooted.downward (motive := fun row =>
    other ∈ preorder rows row ↔ Reaches rows row other) ?_ reaches
  intro row reaches inductionHypothesis
  rw [rooted.preorder_eq reaches, List.mem_cons, List.mem_flatMap, reaches_iff_head]
  refine or_congr eq_comm (exists_congr fun child => ?_)
  rw [mem_childRows_iff]
  refine and_congr_right fun hangs => ?_
  exact inductionHypothesis child (mem_childRows_iff.mpr hangs)

/-- A row is not reached from the rows under it. -/
theorem not_reaches_parent (rooted : Rooted rows root) (reaches : Reaches rows root row)
    {child : Row} (hangs : HangsUnder rows row child) : ¬ Reaches rows child row := by
  intro back
  obtain ⟨above, branch⟩ := reaches_iff_branch.mp reaches
  obtain ⟨between, chain, longer, same⟩ := (Branch.child branch hangs).extend back
  rw [rooted.branch_unique longer branch] at same
  have lengths := congrArg List.length same
  simp only [List.length_cons, List.length_append] at lengths
  omega

/-- What is reached from two rows under the same row is reached from one of them
only. -/
theorem child_unique (rooted : Rooted rows root) (reaches : Reaches rows root row)
    {first second other : Row} (firstHangs : HangsUnder rows row first)
    (secondHangs : HangsUnder rows row second) (fromFirst : Reaches rows first other)
    (fromSecond : Reaches rows second other) : first = second := by
  obtain ⟨above, branch⟩ := reaches_iff_branch.mp reaches
  obtain ⟨firstBetween, firstChain, firstBranch, firstSame⟩ :=
    (Branch.child branch firstHangs).extend fromFirst
  obtain ⟨secondBetween, secondChain, secondBranch, secondSame⟩ :=
    (Branch.child branch secondHangs).extend fromSecond
  -- Both are the row next to the common part of the one branch of `other`.
  rw [rooted.branch_unique firstBranch secondBranch, secondSame] at firstSame
  have ends := (List.append_inj' firstSame (by simp)).2
  exact (List.cons.inj ends).1.symm

/-- Rows do not come twice under a row. -/
theorem childRows_nodup (rooted : Rooted rows root) (parent : UInt64) :
    (childRows rows parent).Nodup :=
  (rooted.distinct.of_map _).filter _

/-- The preorder of a reachable row has no row twice. -/
theorem preorder_nodup (rooted : Rooted rows root) (reaches : Reaches rows root row) :
    (preorder rows row).Nodup := by
  refine rooted.downward (motive := fun row => (preorder rows row).Nodup) ?_ reaches
  intro row reaches inductionHypothesis
  rw [rooted.preorder_eq reaches]
  have below : ∀ {child other}, child ∈ childRows rows row.id →
      (other ∈ preorder rows child ↔ Reaches rows child other) := fun member =>
    rooted.mem_preorder_iff (reaches.tail (mem_childRows_iff.mp member))
  refine List.nodup_cons.mpr ⟨fun member => ?_, List.nodup_flatMap.mpr ⟨inductionHypothesis, ?_⟩⟩
  · obtain ⟨child, childMem, back⟩ := List.mem_flatMap.mp member
    exact rooted.not_reaches_parent reaches (mem_childRows_iff.mp childMem)
      ((below childMem).mp back)
  · refine (rooted.childRows_nodup row.id).imp_of_mem fun firstMem secondMem different => ?_
    intro other inFirst inSecond
    exact different (rooted.child_unique reaches (mem_childRows_iff.mp firstMem)
      (mem_childRows_iff.mp secondMem) ((below firstMem).mp inFirst)
      ((below secondMem).mp inSecond))

/-- The tree of a reachable row depends on nothing but the rows under the reachable
rows: a table with the same ones has the same tree. -/
theorem tree_congr {other : List Row} (rooted : Rooted rows root)
    (otherRooted : Rooted other root)
    (same : ∀ row, Reaches rows root row → childRows other row.id = childRows rows row.id)
    (reaches : Reaches rows root row) : tree other row = tree rows row := by
  have alsoReached : ∀ {row}, Reaches rows root row → Reaches other root row := by
    intro row reaches
    induction reaches with
    | refl => exact .refl
    | @tail parent child upper hangs inductionHypothesis =>
      refine inductionHypothesis.tail (mem_childRows_iff.mp ?_)
      rw [same parent upper]
      exact mem_childRows_iff.mpr hangs
  refine rooted.downward (motive := fun row => tree other row = tree rows row) ?_ reaches
  intro row reaches inductionHypothesis
  rw [rooted.tree_eq reaches, otherRooted.tree_eq (alsoReached reaches), same row reaches,
    mapM_congr inductionHypothesis]

end Rooted

end Treescribe.Table
