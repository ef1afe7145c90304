import Treescribe.Proofs.Table.Mirror

/-!
# Programs as tables

Every node of a tree is written as a row that names the node above it, the rows in preorder.
Read as a table, the rows of a program are that program again, provided that its ids can be
told apart and from the reserved one and that no path or chain is empty. No other program
is read from its own rows, so these conditions are exact.
-/

namespace Treescribe

namespace Content

/-- The row of a node: the fields that its kind has, the others being left out. -/
def row (content : Content) (id parent : UInt64) : Row :=
  let bare : Row := { id, parent, kind := content.kind.spelling }
  match content with
  | .package path | .importPath path => { bare with names := path }
  | .classBody name => { bare with names := [name] }
  | .function declared =>
    { bare with
      names := [declared.name], type := declared.returnType, parameters := declared.parameters }
  | .assignment assigned =>
    { bare with names := [assigned.target], type := assigned.type, value := assigned.value }
  | .print values newline => { bare with values, newline }
  | .returnStatement value => { bare with value }
  | .ifBranch text | .elseIfBranch text => { bare with text := some text }
  | .call name arguments => { bare with names := [name], values := arguments }
  | .chain segments => { bare with segments }
  | .importBlock | .accessBlock _ | .staticBlock | .elseBranch => bare

/-- A content whose path or chain, if it has one, is not empty. -/
def Filled : Content → Prop
  | .package path | .importPath path => path ≠ []
  | .chain segments => segments ≠ []
  | _ => True

@[simp] theorem row_id (content : Content) (id parent : UInt64) :
    (content.row id parent).id = id := by
  cases content <;> rfl

@[simp] theorem row_parent (content : Content) (id parent : UInt64) :
    (content.row id parent).parent = parent := by
  cases content <;> rfl

@[simp] theorem row_kind (content : Content) (id parent : UInt64) :
    (content.row id parent).kind = content.kind.spelling := by
  cases content <;> rfl

/-- A filled content is read from its row. -/
theorem content_row {content : Content} (filled : content.Filled) (id parent : UInt64) :
    (content.row id parent).content = .ok content := by
  have known : Kind.ofSpelling? (content.row id parent).kind = some content.kind :=
    Kind.ofSpelling?_eq_some_iff.mpr (content.row_kind id parent)
  rw [Row.content, known]
  cases content with
  | package path | importPath path | chain path =>
    cases path with
    | nil => exact absurd rfl filled
    | cons => rfl
  | function declared =>
    obtain ⟨name, parameters, isOverride, returnType⟩ := declared
    cases isOverride <;> cases returnType <;> rfl
  | accessBlock access => cases access <;> rfl
  | importBlock | classBody | staticBlock | assignment | print | returnStatement | ifBranch
  | elseIfBranch | elseBranch | call => rfl

end Content

/-- Whatever is read from a row is filled. -/
theorem Row.filled_of_content {row : Row} {content : Content} (read : row.content = .ok content) :
    content.Filled := by
  have path_ne_nil : ∀ {kind path}, row.path kind = .ok path → path ≠ [] := by
    rintro kind path found rfl
    rw [Row.path] at found
    split at found
    · cases found
    · rename_i names
      exact names (by rw [Except.ok.inj found]; rfl)
  rw [Row.content] at read
  split at read
  · rename_i kind _
    cases kind with
    | package | importPath =>
      obtain ⟨path, found, same⟩ := bind_eq_ok_iff.mp read
      cases same
      exact path_ne_nil found
    | classAccess =>
      rw [Row.contentOf] at read
      split at read
      · cases read
      · rename_i segments
        cases read
        exact fun none => segments (by rw [none]; rfl)
    | functionSetter | overrideFunctionSetter =>
      rw [Row.contentOf, Row.setter] at read
      split at read
      · cases read
      · obtain ⟨name, -, same⟩ := bind_eq_ok_iff.mp read
        cases same
        trivial
    | normalClass | normalFunction | overrideFunction | assignment | ifBranch | elseIfBranch
    | callFunction =>
      obtain ⟨value, -, same⟩ := bind_eq_ok_iff.mp read
      cases same
      trivial
    | importBlock | privateBlock | publicBlock | staticBlock | print | returnStatement
    | elseBranch =>
      cases read
      trivial
    | program => cases read
  · cases read

namespace Node

/-- The row of a node under a parent. -/
def row (parent : UInt64) (node : Node) : Row :=
  node.content.row node.id parent

@[simp] theorem row_id (parent : UInt64) (node : Node) : (node.row parent).id = node.id :=
  node.content.row_id ..

@[simp] theorem row_parent (parent : UInt64) (node : Node) : (node.row parent).parent = parent :=
  node.content.row_parent ..

mutual

/-- The rows of a subtree under a parent, each before those under it. -/
def rows (parent : UInt64) : Node → List Row
  | ⟨id, content, children⟩ => content.row id parent :: rowsAll id children

/-- The rows of several subtrees under the same parent. -/
def rowsAll (parent : UInt64) : List Node → List Row
  | [] => []
  | node :: rest => rows parent node ++ rowsAll parent rest

end

/-- The ids of a subtree, in preorder. -/
def ids (node : Node) : List UInt64 :=
  node.preorder.map (·.id)

/-- The rows of several subtrees are those of each of them. -/
theorem rowsAll_eq_flatMap (parent : UInt64) (nodes : List Node) :
    rowsAll parent nodes = nodes.flatMap (rows parent) := by
  induction nodes with
  | nil => simp [rowsAll]
  | cons node rest inductionHypothesis => simp [rowsAll, inductionHypothesis]

/-- The row of a node comes before those of its children. -/
theorem rows_eq (parent : UInt64) (node : Node) :
    node.rows parent = node.row parent :: node.children.flatMap (rows node.id) := by
  cases node with
  | mk id content children => rw [rows, rowsAll_eq_flatMap, row]

/-- The ids of a subtree are that of its root and those of the subtrees below. -/
theorem ids_eq (node : Node) : node.ids = node.id :: node.children.flatMap ids := by
  rw [ids, preorder_eq, List.map_cons, List.map_flatMap]
  rfl

/-- A subtree has the id of each of its nodes. -/
theorem id_mem_ids {node inner : Node} (member : inner ∈ node.preorder) : inner.id ∈ node.ids :=
  List.mem_map_of_mem member

/-- The rows of a subtree have its ids. -/
theorem map_id_rows (parent : UInt64) (node : Node) :
    (node.rows parent).map (·.id) = node.ids := by
  induction node using byChildren generalizing parent with
  | step node inductionHypothesis =>
    rw [rows_eq, ids_eq, List.map_cons, List.map_flatMap]
    refine congrArg₂ List.cons (node.row_id parent) (List.flatMap_congr fun child member => ?_)
    exact inductionHypothesis child member node.id

/-- A row of a subtree hangs under the parent of the subtree or under one of its nodes. -/
theorem parent_of_mem_rows {parent : UInt64} {node : Node} {row : Row}
    (member : row ∈ node.rows parent) : row.parent = parent ∨ row.parent ∈ node.ids := by
  induction node using byChildren generalizing parent with
  | step node inductionHypothesis =>
    rw [rows_eq, List.mem_cons, List.mem_flatMap] at member
    rw [ids_eq, List.mem_cons, List.mem_flatMap]
    rcases member with rfl | ⟨child, childMem, below⟩
    · exact .inl (node.row_parent parent)
    · rcases inductionHypothesis child childMem below with same | inside
      · exact .inr (.inl same)
      · exact .inr (.inr ⟨child, childMem, inside⟩)

end Node

namespace Table

open Node (row rows ids)

/-- Rows before others keep their places among those under a parent. -/
theorem childRows_append (first second : List Row) (parent : UInt64) :
    childRows (first ++ second) parent = childRows first parent ++ childRows second parent :=
  List.filter_append ..

/-- A row before others is under its own parent only. -/
theorem childRows_cons (row : Row) (rest : List Row) (parent : UInt64) :
    childRows (row :: rest) parent =
      if row.parent = parent then row :: childRows rest parent else childRows rest parent := by
  simp [childRows, List.filter_cons]

/-- No row of some subtrees is under a node outside. -/
theorem childRows_foreign {nodes : List Node} {parent other : UInt64} (apart : other ≠ parent)
    (outside : other ∉ nodes.flatMap ids) : childRows (nodes.flatMap (rows parent)) other = [] := by
  rw [childRows, List.filter_eq_nil_iff]
  intro row member hangs
  obtain ⟨node, nodeMem, below⟩ := List.mem_flatMap.mp member
  have same : row.parent = other := beq_iff_eq.mp hangs
  rcases Node.parent_of_mem_rows below with under | inside
  · exact apart (same.symm.trans under)
  · exact outside (List.mem_flatMap.mpr ⟨node, nodeMem, same ▸ inside⟩)

/-- Under the parent of several subtrees are the rows of their roots, in order. -/
theorem childRows_siblings {nodes : List Node} {parent : UInt64}
    (outside : parent ∉ nodes.flatMap ids) :
    childRows (nodes.flatMap (rows parent)) parent = nodes.map (row parent) := by
  induction nodes with
  | nil => rfl
  | cons node rest inductionHypothesis =>
    rw [List.flatMap_cons, List.mem_append, not_or, Node.ids_eq, List.mem_cons, not_or] at outside
    obtain ⟨⟨apart, below⟩, later⟩ := outside
    rw [List.flatMap_cons, childRows_append, inductionHypothesis later, Node.rows_eq,
      childRows_cons, if_pos (node.row_parent parent), childRows_foreign apart below]
    rfl

/-- Ids that are distinct in several subtrees are distinct in each of them. -/
theorem nodup_of_mem {nodes : List Node} {parent : UInt64}
    (distinct : (parent :: nodes.flatMap ids).Nodup) {node : Node} (member : node ∈ nodes) :
    (parent :: node.ids).Nodup := by
  obtain ⟨before, after, rfl⟩ := List.append_of_mem member
  refine distinct.sublist (List.Sublist.cons_cons _ ?_)
  rw [List.flatMap_append, List.flatMap_cons]
  exact (List.sublist_append_left _ _).trans (List.sublist_append_right _ _)

/-- If under every node of each of several subtrees are the rows of its children, so they are
for all of the subtrees together. -/
theorem childRows_forest {nodes : List Node} {parent : UInt64}
    (distinct : (parent :: nodes.flatMap ids).Nodup) {inner : Node} {node : Node}
    (member : node ∈ nodes) (below : inner ∈ node.preorder)
    (alone : childRows (node.rows parent) inner.id = inner.children.map (row inner.id)) :
    childRows (nodes.flatMap (rows parent)) inner.id = inner.children.map (row inner.id) := by
  obtain ⟨before, after, rfl⟩ := List.append_of_mem member
  have inside := Node.id_mem_ids below
  rw [List.flatMap_append, List.flatMap_cons] at distinct
  -- The id stands in the middle part, so it is neither the parent's nor in the other parts.
  have apart : inner.id ≠ parent := by
    rintro rfl
    exact (List.nodup_cons.mp distinct).1 (by simp [inside])
  obtain ⟨-, rest, early⟩ := List.nodup_append.mp (List.nodup_cons.mp distinct).2
  obtain ⟨-, -, late⟩ := List.nodup_append.mp rest
  have notBefore : inner.id ∉ before.flatMap ids := fun found =>
    early _ found _ (List.mem_append_left _ inside) rfl
  have notAfter : inner.id ∉ after.flatMap ids := fun found => late _ inside _ found rfl
  rw [List.flatMap_append, List.flatMap_cons, childRows_append, childRows_append,
    childRows_foreign apart notBefore, childRows_foreign apart notAfter, alone]
  simp

/-- Under a node of a subtree are the rows of its children, in order. -/
theorem childRows_rows {node inner : Node} {parent : UInt64} (distinct : (parent :: node.ids).Nodup)
    (member : inner ∈ node.preorder) :
    childRows (node.rows parent) inner.id = inner.children.map (row inner.id) := by
  induction node using Node.byChildren generalizing parent with
  | step node inductionHypothesis =>
    have outside : (node.row parent).parent ≠ inner.id := by
      intro same
      rw [Node.row_parent] at same
      exact (List.nodup_cons.mp distinct).1 (same ▸ Node.id_mem_ids member)
    have below := (List.nodup_cons.mp distinct).2
    rw [Node.ids_eq] at below
    rw [Node.rows_eq, childRows_cons, if_neg outside]
    rw [Node.preorder_eq, List.mem_cons, List.mem_flatMap] at member
    rcases member with rfl | ⟨child, childMem, inChild⟩
    · exact childRows_siblings (List.nodup_cons.mp below).1
    · refine childRows_forest below childMem inChild ?_
      exact inductionHypothesis child childMem (nodup_of_mem below childMem) inChild

end Table

namespace Program

/-- The row of the program itself, which has no parent. -/
def rootRow (program : Program) : Row :=
  { id := program.id, kind := Kind.program.spelling }

/-- The table of a program: its own row and those of the nodes below it, in preorder. -/
def rows (program : Program) : List Row :=
  program.rootRow :: Node.rowsAll program.id program.children

/-- A program that a table can hold: ids that are not the reserved one and are not used twice,
and no empty path or chain. -/
structure Expressible (program : Program) : Prop where
  nonzero : 0 ∉ program.ids
  distinct : program.ids.Nodup
  filled : ∀ node ∈ program.nodes, node.content.Filled

/-- The ids of a program are its own and those of the subtrees below it. -/
theorem ids_eq (program : Program) :
    program.ids = program.id :: program.children.flatMap Node.ids := by
  rw [ids, nodes_eq_flatMap, List.map_flatMap]
  rfl

/-- The rows of a program are its own and those of the subtrees below it. -/
theorem rows_eq (program : Program) :
    program.rows = program.rootRow :: program.children.flatMap (Node.rows program.id) := by
  rw [rows, Node.rowsAll_eq_flatMap]

/-- The rows of a program have its ids. -/
theorem map_id_rows (program : Program) : program.rows.map (·.id) = program.ids := by
  rw [rows_eq, ids_eq, List.map_cons, List.map_flatMap]
  exact congrArg (program.id :: ·) (List.flatMap_congr fun child _ => child.map_id_rows _)

/-- The rows of a program have ids of their own exactly when its ids are distinct and none is
the reserved one. -/
theorem ownIds_rows_iff {program : Program} :
    Table.OwnIds program.rows ↔ 0 ∉ program.ids ∧ program.ids.Nodup := by
  rw [← map_id_rows]
  constructor
  · rintro ⟨nonzero, distinct⟩
    refine ⟨fun zero => ?_, distinct⟩
    obtain ⟨row, member, same⟩ := List.mem_map.mp zero
    exact nonzero row member same
  · rintro ⟨nonzero, distinct⟩
    exact ⟨fun row member same => nonzero (List.mem_map.mpr ⟨row, member, same⟩), distinct⟩

namespace Expressible

open Table

variable {program : Program}

/-- The program's row is the one without a parent. -/
theorem rooted (expressible : Expressible program) : Rooted program.rows program.rootRow := by
  refine ⟨ownIds_rows_iff.mpr ⟨expressible.nonzero, expressible.distinct⟩, ?_⟩
  have free : program.rootRow.parent = 0 := rfl
  have nonzero := expressible.nonzero
  rw [ids_eq, List.mem_cons, not_or] at nonzero
  rw [rows_eq, childRows_cons, if_pos free, childRows_foreign nonzero.1 nonzero.2]

/-- Every row hangs under the program or under one of its nodes. -/
theorem not_dangling {row : Row} (member : row ∈ program.rows) :
    ¬ Dangling program.rows row := by
  rintro ⟨linked, missing⟩
  have present : row.parent ∈ program.ids := by
    rw [rows_eq, List.mem_cons, List.mem_flatMap] at member
    rw [ids_eq, List.mem_cons, List.mem_flatMap]
    rcases member with rfl | ⟨child, childMem, below⟩
    · exact absurd rfl linked
    · rcases Node.parent_of_mem_rows below with same | inside
      · exact .inl same
      · exact .inr ⟨child, childMem, inside⟩
  rw [← map_id_rows] at present
  obtain ⟨parent, parentMem, same⟩ := List.mem_map.mp present
  exact missing parent parentMem same

/-- A program's own row is under none of its nodes. -/
theorem childRows_rows_eq (expressible : Expressible program) {id : UInt64}
    (member : id ∈ program.ids) :
    childRows program.rows id = childRows (program.children.flatMap (Node.rows program.id)) id := by
  have nonzero : program.rootRow.parent ≠ id := by
    rintro rfl
    exact expressible.nonzero member
  rw [rows_eq, childRows_cons, if_neg nonzero]

/-- Under the program are the rows of its children, in order. -/
theorem childRows_root (expressible : Expressible program) :
    childRows program.rows program.id = program.children.map (Node.row program.id) := by
  have distinct := expressible.distinct
  rw [ids_eq] at distinct
  rw [expressible.childRows_rows_eq (by simp [ids]),
    childRows_siblings (List.nodup_cons.mp distinct).1]

/-- Under every node are the rows of its children, in order. -/
theorem childRows_node (expressible : Expressible program) {node : Node}
    (member : node ∈ program.nodes) :
    childRows program.rows node.id = node.children.map (Node.row node.id) := by
  have distinct := expressible.distinct
  rw [ids_eq] at distinct
  rw [expressible.childRows_rows_eq (List.mem_cons_of_mem _ (List.mem_map_of_mem member))]
  rw [nodes_eq_flatMap, List.mem_flatMap] at member
  obtain ⟨child, childMem, below⟩ := member
  exact childRows_forest distinct childMem below
    (childRows_rows (nodup_of_mem distinct childMem) below)

/-- The tree of the row of a node is the node. -/
theorem tree_row (expressible : Expressible program) {node : Node}
    (inside : node.preorder ⊆ program.nodes) {parent : UInt64}
    (reaches : Reaches program.rows program.rootRow (node.row parent)) :
    tree program.rows (node.row parent) = .ok node := by
  induction node using Node.byChildren generalizing parent with
  | step node inductionHypothesis =>
    have member : node ∈ program.nodes := inside (by rw [Node.preorder_eq]; simp)
    have hanging := expressible.childRows_node member
    apply (expressible.rooted.tree_eq_ok_iff reaches).mpr
    refine ⟨(node.row_id parent).symm, Content.content_row (expressible.filled node member) _ _, ?_⟩
    rw [Grown, Node.row_id, hanging, List.forall₂_map_left_iff, List.forall₂_same]
    intro child childMem
    apply inductionHypothesis child childMem
    · intro inner below
      apply inside
      rw [Node.preorder_eq, List.mem_cons, List.mem_flatMap]
      exact .inr ⟨child, childMem, below⟩
    · apply reaches.tail
      apply mem_childRows_iff.mp
      rw [Node.row_id, hanging]
      exact List.mem_map_of_mem childMem

end Expressible

/-- What is read from the rows of a program is the program itself, exactly for programs that a
table can hold. -/
theorem program_rows_iff (program : Program) :
    Table.program program.rows = .ok program ↔ Expressible program := by
  rw [Table.program_eq_ok_iff]
  constructor
  · rintro ⟨root, rooted, -, -, sameId, built⟩
    obtain ⟨nonzero, distinct⟩ := ownIds_rows_iff.mp rooted.toOwnIds
    refine ⟨nonzero, distinct, fun node member => ?_⟩
    obtain ⟨row, reaches, grown⟩ := rooted.tree_of_mem_nodes (mapM_eq_ok_iff.mp built) member
    exact Row.filled_of_content ((rooted.tree_eq_ok_iff reaches).mp grown).2.1
  · intro expressible
    refine ⟨program.rootRow, expressible.rooted, fun row => Expressible.not_dangling, rfl, rfl, ?_⟩
    have hanging : Table.childRows program.rows program.rootRow.id =
        program.children.map (Node.row program.id) := expressible.childRows_root
    rw [hanging, mapM_eq_ok_iff, List.forall₂_map_left_iff, List.forall₂_same]
    intro child member
    apply expressible.tree_row
    · rw [nodes_eq_flatMap]
      exact fun inner below => List.mem_flatMap.mpr ⟨child, member, below⟩
    · apply Relation.ReflTransGen.single
      apply Table.mem_childRows_iff.mp
      rw [hanging]
      exact List.mem_map_of_mem member

end Program

end Treescribe
