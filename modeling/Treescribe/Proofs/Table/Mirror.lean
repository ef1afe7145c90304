import Mathlib.Data.List.Perm.Basic
import Treescribe.Proofs.Nodes
import Treescribe.Proofs.Table.Checks

/-!
# Programs as images of their tables

A program has one node for each row that is reached from the root, under the node of
its parent, in table order and with the content of its row. The other rows, which may
hang under each other in circles and need not be complete, leave no trace but their
number in a warning.
-/

namespace Treescribe.Table

/-- The trees of the rows under a row, in table order. -/
def Grown (rows : List Row) (row : Row) (children : List Node) : Prop :=
  List.Forall₂ (fun child subtree => tree rows child = .ok subtree)
    (childRows rows row.id) children

/-- The rows under a reachable row are reachable, as they grow. -/
theorem Grown.reached {rows : List Row} {root row : Row} {children : List Node}
    (grown : Grown rows row children) (reaches : Reaches rows root row) :
    List.Forall₂ (fun child subtree => Reaches rows root child ∧ tree rows child = .ok subtree)
      (childRows rows row.id) children :=
  (List.forall₂_and_left _ _).mpr
    ⟨fun _ member => reaches.tail (mem_childRows_iff.mp member), grown⟩

namespace Rooted

variable {rows : List Row} {root row : Row}

/-- The tree of a reachable row is a node with the id and the content of the row, and
with the trees of the rows under it as children. -/
theorem tree_eq_ok_iff (rooted : Rooted rows root) (reaches : Reaches rows root row)
    {node : Node} :
    tree rows row = .ok node ↔
      node.id = row.id ∧ row.content = .ok node.content ∧ Grown rows row node.children := by
  rw [rooted.tree_eq reaches]
  simp only [bind_eq_ok_iff, mapM_eq_ok_iff]
  constructor
  · rintro ⟨content, found, children, built, joined⟩
    cases joined
    exact ⟨rfl, found, built⟩
  · rintro ⟨same, found, built⟩
    refine ⟨node.content, found, node.children, built, ?_⟩
    cases node with
    | mk id content children =>
      rw [← same]
      rfl

/-- Every node of a tree is itself the tree of a row. -/
theorem tree_of_mem_preorder (rooted : Rooted rows root) (reaches : Reaches rows root row)
    {node inner : Node} (grown : tree rows row = .ok node) (member : inner ∈ node.preorder) :
    ∃ other, Reaches rows row other ∧ tree rows other = .ok inner := by
  induction node using Node.byChildren generalizing row with
  | step node inductionHypothesis =>
    rw [Node.preorder_eq, List.mem_cons, List.mem_flatMap] at member
    rcases member with rfl | ⟨child, childMem, below⟩
    · exact ⟨row, .refl, grown⟩
    · obtain ⟨_, _, children⟩ := (rooted.tree_eq_ok_iff reaches).mp grown
      obtain ⟨childRow, rowMem, childGrown⟩ := exists_of_forall₂ children childMem
      have hangs := mem_childRows_iff.mp rowMem
      obtain ⟨other, reached, otherGrown⟩ :=
        inductionHypothesis child childMem (reaches.tail hangs) childGrown below
      exact ⟨other, .head hangs reached, otherGrown⟩

/-- Trees whose ids are those of the preorders of their rows have together the ids of
all these preorders. -/
theorem flatMap_preorder_ids {parents : List Row} {nodes : List Node}
    (alike : List.Forall₂
      (fun row node => node.preorder.map (·.id) = (preorder rows row).map (·.id)) parents nodes) :
    (nodes.flatMap Node.preorder).map (·.id) = (parents.flatMap (preorder rows)).map (·.id) := by
  rw [List.map_flatMap, List.map_flatMap, List.flatMap_def, List.flatMap_def,
    map_eq_of_forall₂ alike]

/-- The ids of a tree are those of the rows under its row, in preorder. -/
theorem preorder_ids (rooted : Rooted rows root) (reaches : Reaches rows root row)
    {node : Node} (grown : tree rows row = .ok node) :
    node.preorder.map (·.id) = (preorder rows row).map (·.id) := by
  refine rooted.downward (motive := fun row => ∀ node, tree rows row = .ok node →
    node.preorder.map (·.id) = (preorder rows row).map (·.id)) ?_ reaches node grown
  intro row reaches inductionHypothesis node grown
  obtain ⟨same, _, children⟩ := (rooted.tree_eq_ok_iff reaches).mp grown
  have below := (List.forall₂_and_left _ _).mpr ⟨inductionHypothesis, children⟩
  have alike := flatMap_preorder_ids (below.imp fun _ subtree both => both.1 subtree both.2)
  rw [Node.preorder_eq, rooted.preorder_eq reaches, List.map_cons, List.map_cons, same, alike]

/-- The trees under a reachable row have the ids of its rows, in table order. -/
theorem children_ids (rooted : Rooted rows root) (reaches : Reaches rows root row)
    {children : List Node} (grown : Grown rows row children) :
    children.map (·.id) = (childRows rows row.id).map (·.id) := by
  refine map_eq_of_forall₂ ((grown.reached reaches).imp ?_)
  rintro child node ⟨childReached, childGrown⟩
  exact ((rooted.tree_eq_ok_iff childReached).mp childGrown).1

variable {program : Program}

/-- The ids of a program are those of the reachable rows, in preorder. -/
theorem program_ids (rooted : Rooted rows root) (same : program.id = root.id)
    (grown : Grown rows root program.children) :
    program.ids = (preorder rows root).map (·.id) := by
  have alike := flatMap_preorder_ids ((grown.reached .refl).imp
    fun child node both => rooted.preorder_ids both.1 both.2)
  rw [Program.ids, Program.nodes_eq_flatMap, rooted.preorder_eq .refl, List.map_cons, same, alike]

/-- Every node of a program is the tree of a reachable row. -/
theorem tree_of_mem_nodes (rooted : Rooted rows root) (grown : Grown rows root program.children)
    {node : Node} (member : node ∈ program.nodes) :
    ∃ row, Reaches rows root row ∧ tree rows row = .ok node := by
  rw [Program.nodes_eq_flatMap, List.mem_flatMap] at member
  obtain ⟨child, childMem, below⟩ := member
  obtain ⟨childRow, rowMem, childGrown⟩ := exists_of_forall₂ grown childMem
  have reached : Reaches rows root childRow := .single (mem_childRows_iff.mp rowMem)
  obtain ⟨row, reaches, rowGrown⟩ := rooted.tree_of_mem_preorder reached childGrown below
  exact ⟨row, reached.trans reaches, rowGrown⟩

/-- The program and every node below it belong to a reachable row, and have the trees of
the rows under it as children. -/
theorem grown_of_mem_subjects (rooted : Rooted rows root) (same : program.id = root.id)
    (grown : Grown rows root program.children) {subject : Subject}
    (member : subject ∈ program.subjects) :
    ∃ row, Reaches rows root row ∧ subject.id = row.id ∧ Grown rows row subject.children := by
  rcases List.mem_cons.mp member with rfl | member
  · exact ⟨root, .refl, same, grown⟩
  · obtain ⟨node, nodeMem, rfl⟩ := List.mem_map.mp member
    obtain ⟨row, reaches, rowGrown⟩ := rooted.tree_of_mem_nodes grown nodeMem
    obtain ⟨sameId, _, children⟩ := (rooted.tree_eq_ok_iff reaches).mp rowGrown
    exact ⟨row, reaches, sameId, children⟩

/-- A row without a parent, or under a reachable row, is reachable. -/
theorem reaches_of_parent (rooted : Rooted rows root) (member : row ∈ rows)
    (linked : row.parent = 0 ∨ ∃ parent, Reaches rows root parent ∧ row.parent = parent.id) :
    Reaches rows root row := by
  rcases linked with free | ⟨parent, reaches, hangs⟩
  · have single : row ∈ childRows rows 0 := by simp [childRows, member, free]
    rw [rooted.single, List.mem_singleton] at single
    exact single ▸ .refl
  · exact reaches.tail ⟨member, hangs⟩

/-- A table with the same rows under the root's parent and under the reachable rows is
the same program, if it passes the checks of ids and parents. -/
theorem program_transfer (rooted : Rooted rows root) {other : List Row} (ids : OwnIds other)
    (parents : ∀ row ∈ other, ¬ Dangling other row)
    (same : ∀ parent, (parent = 0 ∨ ∃ row, Reaches rows root row ∧ parent = row.id) →
      childRows other parent = childRows rows parent)
    (named : root.kind = Kind.program.spelling) (sameId : program.id = root.id)
    (grown : Grown rows root program.children) : Table.program other = .ok program := by
  have otherRooted : Rooted other root := ⟨ids, (same 0 (.inl rfl)).trans rooted.single⟩
  have sameBelow : ∀ row, Reaches rows root row →
      childRows other row.id = childRows rows row.id := fun row reaches =>
    same row.id (.inr ⟨row, reaches, rfl⟩)
  refine program_eq_ok_iff.mpr ⟨root, otherRooted, parents, named, sameId, ?_⟩
  rw [sameBelow root .refl, mapM_congr fun child member =>
    rooted.tree_congr otherRooted sameBelow (.single (mem_childRows_iff.mp member))]
  exact mapM_eq_ok_iff.mpr grown

end Rooted

open Classical in
/-- The rows that are reached from a root, in table order. -/
noncomputable def reached (rows : List Row) (root : Row) : List Row :=
  rows.filter fun row => decide (Reaches rows root row)

open Classical in
/-- The rows that are not reached from a root, in table order. -/
noncomputable def unreached (rows : List Row) (root : Row) : List Row :=
  rows.filter fun row => !decide (Reaches rows root row)

/-- A table that differs in what the unreached rows say, but in no id and no link. -/
def Reworded (rows : List Row) (root : Row) (other : List Row) : Prop :=
  List.Forall₂ (fun row changed => changed.id = row.id ∧ changed.parent = row.parent ∧
    (Reaches rows root row → changed = row)) rows other

/-- Tables with the same links, and with the same rows under a parent, list the same rows
under it. -/
theorem childRows_eq_of_forall₂ {rows other : List Row} {parent : UInt64}
    (pairs : List.Forall₂ (fun row changed => changed.parent = row.parent ∧
      (row.parent = parent → changed = row)) rows other) :
    childRows other parent = childRows rows parent := by
  induction pairs with
  | nil => rfl
  | @cons row changed rows other pair _ inductionHypothesis =>
    unfold childRows at inductionHypothesis ⊢
    by_cases hangs : row.parent = parent
    · rw [pair.2 hangs, List.filter_cons, List.filter_cons, inductionHypothesis]
    · have apart : changed.parent ≠ parent := pair.1 ▸ hangs
      simp [hangs, apart, inductionHypothesis]

namespace Rooted

variable {rows : List Row} {root : Row} {program : Program}

/-- The reached rows alone are the same program. -/
theorem program_reached (rooted : Rooted rows root)
    (named : root.kind = Kind.program.spelling) (sameId : program.id = root.id)
    (grown : Grown rows root program.children) :
    Table.program (reached rows root) = .ok program := by
  have inside : ∀ {row}, row ∈ reached rows root ↔ Reaches rows root row := by
    intro row
    simp only [reached, List.mem_filter, decide_eq_true_eq, and_iff_right_iff_imp]
    exact rooted.mem_of_reaches
  refine rooted.program_transfer ⟨?_, ?_⟩ ?_ ?_ named sameId grown
  · exact fun row member => rooted.nonzero row (rooted.mem_of_reaches (inside.mp member))
  · exact rooted.distinct.sublist (List.filter_sublist.map _)
  · -- The row above a reached row is reached, too.
    intro row member
    refine fun dangling => ?_
    rcases Relation.ReflTransGen.cases_tail (inside.mp member) with same | ⟨parent, upper, hangs⟩
    · exact dangling.1 (same ▸ rooted.root_mem.2)
    · exact dangling.2 parent (inside.mpr upper) hangs.2.symm
  · intro parent linked
    unfold childRows reached
    rw [List.filter_comm, List.filter_eq_self]
    intro row member
    simp only [List.mem_filter, beq_iff_eq] at member
    have reaches := rooted.reaches_of_parent member.1 (member.2 ▸ linked)
    simpa using reaches

/-- What the unreached rows say has no influence on the program. -/
theorem program_reworded (rooted : Rooted rows root) {other : List Row}
    (parents : ∀ row ∈ rows, ¬ Dangling rows row) (named : root.kind = Kind.program.spelling)
    (sameId : program.id = root.id) (grown : Grown rows root program.children)
    (reworded : Reworded rows root other) : Table.program other = .ok program := by
  have sameIds : other.map (·.id) = rows.map (·.id) :=
    map_eq_of_forall₂ (reworded.imp fun _ _ pair => pair.1)
  have original : ∀ {changed}, changed ∈ other →
      ∃ row ∈ rows, changed.id = row.id ∧ changed.parent = row.parent := by
    intro changed member
    obtain ⟨row, rowMem, id, parent, _⟩ := exists_of_forall₂ reworded member
    exact ⟨row, rowMem, id, parent⟩
  refine rooted.program_transfer ⟨?_, ?_⟩ ?_ ?_ named sameId grown
  · intro changed member
    obtain ⟨row, rowMem, id, _⟩ := original member
    exact id ▸ rooted.nonzero row rowMem
  · exact sameIds ▸ rooted.distinct
  · intro changed member dangling
    obtain ⟨row, rowMem, _, parent⟩ := original member
    refine parents row rowMem ⟨parent ▸ dangling.1, fun above aboveMem same => ?_⟩
    have listed : above.id ∈ other.map (·.id) := sameIds ▸ List.mem_map_of_mem aboveMem
    obtain ⟨copy, copyMem, copyId⟩ := List.mem_map.mp listed
    exact dangling.2 copy copyMem (copyId.trans (same.trans parent.symm))
  · intro parent linked
    have kept : ∀ row ∈ rows, row.parent = parent → Reaches rows root row :=
      fun row member hangs => rooted.reaches_of_parent member (hangs ▸ linked)
    have pairs := (List.forall₂_and_left _ _).mpr ⟨kept, reworded⟩
    refine childRows_eq_of_forall₂ (pairs.imp ?_)
    rintro row changed ⟨reaches, _, sameParent, unchanged⟩
    exact ⟨sameParent, fun hangs => unchanged (reaches hangs)⟩

/-- A program has as many nodes as there are reached rows. -/
theorem program_size (rooted : Rooted rows root) (sameId : program.id = root.id)
    (grown : Grown rows root program.children) :
    program.size = (reached rows root).length := by
  have permuted : (preorder rows root).Perm (reached rows root) := by
    refine (List.perm_ext_iff_of_nodup (rooted.preorder_nodup .refl) ?_).mpr fun row => ?_
    · exact (rooted.distinct.of_map _).filter _
    · rw [rooted.mem_preorder_iff .refl]
      simp only [reached, List.mem_filter, decide_eq_true_eq]
      exact ⟨fun reaches => ⟨rooted.mem_of_reaches reaches, reaches⟩, fun both => both.2⟩
  rw [Program.size_eq_length, rooted.program_ids sameId grown, List.length_map,
    permuted.length_eq]

end Rooted

/-- A table consists of its reached and its unreached rows. -/
theorem length_reached_add_unreached (rows : List Row) (root : Row) :
    (reached rows root).length + (unreached rows root).length = rows.length :=
  (List.length_eq_length_filter_add _).symm

/-- A program shows exactly the reached rows of its table. -/
structure Mirrors (rows : List Row) (root : Row) (program : Program) : Prop where
  root_id : program.id = root.id
  /-- The ids of the program are those of the reached rows, … -/
  mem_ids : ∀ id, id ∈ program.ids ↔ ∃ row, Reaches rows root row ∧ row.id = id
  /-- … each once. -/
  ids_nodup : program.ids.Nodup
  /-- A node is under the one that its row names as parent. -/
  hangs : ∀ subject ∈ program.subjects, ∀ child ∈ subject.children,
    ∃ row ∈ rows, row.id = child.id ∧ row.parent = subject.id
  /-- The children of a node are in table order. -/
  ordered : ∀ subject ∈ program.subjects,
    subject.children.map (·.id) = (childRows rows subject.id).map (·.id)
  contents : ∀ node ∈ program.nodes, ∃ row ∈ rows, row.id = node.id ∧
    row.content = .ok node.content
  /-- Without the unreached rows the program is the same, … -/
  restricted : Table.program (reached rows root) = .ok program
  /-- … and so it is whatever they say. -/
  unaffected : ∀ other, Reworded rows root other → Table.program other = .ok program
  /-- The unreached rows are counted in a warning, if there are any. -/
  warned : Table.notices rows program =
    (if unreached rows root = [] then [] else [.unreachable (unreached rows root).length]) ++
      [.parsed program.id program.size]

/-- The warning about a program counts the unreached rows. -/
theorem Rooted.notices_eq {rows : List Row} {root : Row} {program : Program}
    (rooted : Rooted rows root) (sameId : program.id = root.id)
    (grown : Grown rows root program.children) :
    Table.notices rows program =
      (if unreached rows root = [] then [] else [.unreachable (unreached rows root).length]) ++
        [.parsed program.id program.size] := by
  have size := rooted.program_size sameId grown
  have total := length_reached_add_unreached rows root
  have excess : rows.length - program.size = (unreached rows root).length := by omega
  unfold Table.notices
  by_cases none : unreached rows root = []
  · have full : ¬ program.size < rows.length := by
      rw [none, List.length_nil] at total
      omega
    rw [if_neg full, if_pos none]
  · have positive := List.length_pos_iff.mpr none
    have short : program.size < rows.length := by omega
    rw [if_pos short, if_neg none, excess]

/-- A table that is a program has one row without a parent, and the program mirrors the
rows that are reached from it. -/
theorem program_mirrors {rows : List Row} {program : Program}
    (accepted : Table.program rows = .ok program) :
    ∃ root, childRows rows 0 = [root] ∧ Mirrors rows root program := by
  obtain ⟨root, rooted, parents, named, sameId, built⟩ := program_eq_ok_iff.mp accepted
  have grown : Grown rows root program.children := mapM_eq_ok_iff.mp built
  have ids := rooted.program_ids sameId grown
  refine ⟨root, rooted.single, sameId, ?_, ?_, ?_, ?_, ?_, ?_, ?_, ?_⟩
  · intro id
    simp only [ids, List.mem_map, rooted.mem_preorder_iff .refl]
  · rw [ids]
    refine (List.nodup_map_iff_inj_on (rooted.preorder_nodup .refl)).mpr ?_
    intro first firstMem second secondMem same
    exact rooted.eq_of_id_eq (rooted.mem_of_reaches ((rooted.mem_preorder_iff .refl).mp firstMem))
      (rooted.mem_of_reaches ((rooted.mem_preorder_iff .refl).mp secondMem)) same
  · intro subject member child childMem
    obtain ⟨row, reaches, subjectId, subjectGrown⟩ :=
      rooted.grown_of_mem_subjects sameId grown member
    obtain ⟨childRow, rowMem, childGrown⟩ := exists_of_forall₂ subjectGrown childMem
    have hangs := mem_childRows_iff.mp rowMem
    have childId := ((rooted.tree_eq_ok_iff (reaches.tail hangs)).mp childGrown).1
    exact ⟨childRow, hangs.1, childId.symm, hangs.2.trans subjectId.symm⟩
  · intro subject member
    obtain ⟨row, reaches, subjectId, subjectGrown⟩ :=
      rooted.grown_of_mem_subjects sameId grown member
    rw [subjectId]
    exact rooted.children_ids reaches subjectGrown
  · intro node member
    obtain ⟨row, reaches, rowGrown⟩ := rooted.tree_of_mem_nodes grown member
    obtain ⟨nodeId, content, _⟩ := (rooted.tree_eq_ok_iff reaches).mp rowGrown
    exact ⟨row, rooted.mem_of_reaches reaches, nodeId.symm, content⟩
  · exact rooted.program_reached named sameId grown
  · exact fun other => rooted.program_reworded parents named sameId grown
  · exact rooted.notices_eq sameId grown

/-- A table with a circle of incomplete rows, and with a row that is its own parent. -/
def circularTable : List Row :=
  [{ id := 7, parent := 9, kind := "unheard of" }, { id := 3, parent := 1, kind := "else" },
    { id := 1, kind := "program" }, { id := 9, parent := 7, kind := "if" },
    { id := 5, parent := 5, kind := "program" },
    { id := 2, parent := 3, kind := "normalClass", names := ["A", "B"] }]

/-- The circle and the row under itself are not in the program. -/
theorem program_mirrors_circularTable :
    Table.program circularTable =
        .ok ⟨1, [⟨3, .elseBranch, [⟨2, .classBody "A", []⟩]⟩]⟩ ∧
      ∃ root, childRows circularTable 0 = [root] ∧
        Mirrors circularTable root ⟨1, [⟨3, .elseBranch, [⟨2, .classBody "A", []⟩]⟩]⟩ :=
  ⟨rfl, program_mirrors rfl⟩

end Treescribe.Table
