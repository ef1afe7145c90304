import Treescribe.Proofs.Table.Checks

/-!
# Building by ids

A tree can also be built by ids alone: a node looks its row up under its id, and its children
are built under the ids that name it as their parent. Such a recursion follows the links of the
table, which may run in circles; it looks up ids that may be missing; and nothing but the table
bounds it. Here every id that is looked up is recorded, and a missing id and too many nested
calls are failures of their own. From the root of a table none of these happens, and the result
is that of the rows.
-/

namespace Treescribe.Table

/-- Why a node is not built. -/
inductive BuildFailure where
  | table (error : TableError)
  /-- No row has the id. -/
  | absent (id : UInt64)
  /-- There are more nested calls than allowed. -/
  | tooDeep
deriving DecidableEq, Repr

/-- What is built, and the ids that were looked up for it, in order. -/
structure Build (α : Type) where
  visited : List UInt64
  outcome : Except BuildFailure α

namespace Build

/-- The second build goes on with the result of the first one, if there is one. -/
def andThen {α β : Type} (first : Build α) (next : α → Build β) : Build β :=
  match first.outcome with
  | .ok value => ⟨first.visited ++ (next value).visited, (next value).outcome⟩
  | .error failure => ⟨first.visited, .error failure⟩

instance : Monad Build where
  pure value := ⟨[], .ok value⟩
  bind := andThen

instance : LawfulMonad Build :=
  LawfulMonad.mk' Build
    (by
      rintro α ⟨visited, outcome⟩
      cases outcome <;> simp [Functor.map, andThen])
    (by
      intro α β value next
      simp [bind, pure, andThen])
    (by
      rintro α β γ ⟨visited, outcome⟩ next later
      cases outcome with
      | error failure => rfl
      | ok value => cases found : (next value).outcome <;> simp [bind, andThen, found])

variable {α β : Type}

/-- The result of two builds is that of the second one, if the first one has a result. -/
theorem outcome_bind (first : Build α) (next : α → Build β) :
    (first >>= next).outcome = first.outcome >>= fun value => (next value).outcome := by
  obtain ⟨visited, outcome⟩ := first
  cases outcome <;> rfl

/-- The results of a list of builds are built one after the other. -/
theorem outcome_mapM (build : α → Build β) (inputs : List α) :
    (inputs.mapM build).outcome = inputs.mapM fun input => (build input).outcome := by
  induction inputs with
  | nil => rfl
  | cons input rest inductionHypothesis =>
    rw [List.mapM_cons, List.mapM_cons, outcome_bind]
    congr 1
    funext value
    rw [outcome_bind, inductionHypothesis]
    rfl

/-- A build that looks up the ids of a list in their order: all of them if it succeeds, and
those up to some id if it fails. -/
structure Follows (build : Build α) (ids : List UInt64) : Prop where
  start : build.visited <+: ids
  whole : ∀ value, build.outcome = .ok value → build.visited = ids

/-- Where nothing is looked up, no ids are followed. -/
theorem follows_nil (outcome : Except BuildFailure α) : Follows ⟨[], outcome⟩ [] :=
  ⟨List.prefix_rfl, fun _ _ => rfl⟩

/-- Two builds follow the ids of the first and then those of the second. -/
theorem Follows.bind {first : Build α} {next : α → Build β} {ids more : List UInt64}
    (follows : first.Follows ids)
    (later : ∀ value, first.outcome = .ok value → (next value).Follows more) :
    (first >>= next).Follows (ids ++ more) := by
  obtain ⟨visited, outcome⟩ := first
  cases outcome with
  | error failure =>
    exact ⟨follows.start.trans (List.prefix_append _ _), fun value done => by cases done⟩
  | ok value =>
    obtain rfl : visited = ids := follows.whole value rfl
    obtain ⟨start, whole⟩ := later value rfl
    refine ⟨(List.prefix_append_right_inj visited).mpr start, fun result done => ?_⟩
    exact congrArg (visited ++ ·) (whole result done)

/-- A list of builds follows the ids of each of them in turn. -/
theorem follows_mapM {build : α → Build β} {ids : α → List UInt64} {inputs : List α}
    (each : ∀ input ∈ inputs, (build input).Follows (ids input)) :
    (inputs.mapM build).Follows (inputs.flatMap ids) := by
  induction inputs with
  | nil => exact follows_nil _
  | cons input rest inductionHypothesis =>
    obtain ⟨here, later⟩ := List.forall_mem_cons.mp each
    rw [List.mapM_cons, List.flatMap_cons]
    refine here.bind fun value _ => ?_
    have others := (inductionHypothesis later).bind fun values _ =>
      follows_nil (.ok (value :: values))
    rwa [List.append_nil] at others

end Build

/-- Looks a row up under an id. -/
def lookUp (rows : List Row) (id : UInt64) : Build Row :=
  ⟨[id], match rows.find? (·.id == id) with
    | some row => .ok row
    | none => .error (.absent id)⟩

/-- The ids that name an id as their parent, in table order. -/
def childIds (rows : List Row) (id : UInt64) : List UInt64 :=
  (childRows rows id).map (·.id)

/-- The node of an id, with children that are built below it. -/
def buildNode (rows : List Row) (children : UInt64 → Build (List Node)) (id : UInt64) :
    Build Node := do
  let row ← lookUp rows id
  let content ← (⟨[], row.content.mapError .table⟩ : Build Content)
  return ⟨id, content, ← children id⟩

/-- The children of an id, with so many nested calls allowed. -/
def buildChildren (rows : List Row) : (limit : Nat) → UInt64 → Build (List Node)
  | 0, _ => ⟨[], .error .tooDeep⟩
  | limit + 1, id => (childIds rows id).mapM (buildNode rows (buildChildren rows limit))

section Errors

variable {ε δ α β : Type}

/-- Errors of two steps are renamed in each of them. -/
theorem mapError_bind (rename : ε → δ) (first : Except ε α) (next : α → Except ε β) :
    (first >>= next).mapError rename =
      first.mapError rename >>= fun value => (next value).mapError rename := by
  cases first <;> rfl

/-- Errors of a list of steps are renamed in each of them. -/
theorem mapError_mapM (rename : ε → δ) (step : α → Except ε β) (inputs : List α) :
    (inputs.mapM step).mapError rename = inputs.mapM fun input => (step input).mapError rename := by
  induction inputs with
  | nil => rfl
  | cons input rest inductionHypothesis =>
    rw [List.mapM_cons, List.mapM_cons, mapError_bind]
    congr 1
    funext value
    rw [mapError_bind, inductionHypothesis]
    rfl

end Errors

/-- The children of a row are built by ids with the result that they have by rows, and the ids
are looked up in preorder. -/
structure BuiltBelow (rows : List Row) (row : Row) (build : Build (List Node)) : Prop where
  outcome : build.outcome = ((childRows rows row.id).mapM (tree rows)).mapError .table
  follows : build.Follows (((childRows rows row.id).flatMap (preorder rows)).map (·.id))

namespace Rooted

variable {rows : List Row} {root row : Row}

/-- A row is found under its id. -/
theorem lookUp_eq (rooted : Rooted rows root) (member : row ∈ rows) :
    lookUp rows row.id = ⟨[row.id], .ok row⟩ := by
  have found : rows.find? (·.id == row.id) = some row := by
    cases search : rows.find? (·.id == row.id) with
    | none => simpa using List.find?_eq_none.mp search row member
    | some other =>
      have same : other.id = row.id := by simpa using List.find?_some search
      rw [rooted.eq_of_id_eq (List.mem_of_find?_eq_some search) member same]
  rw [lookUp, found]

/-- A node is built by its id as its tree is built from its row, if its children are. -/
theorem buildNode_eq (rooted : Rooted rows root) (reaches : Reaches rows root row)
    {children : UInt64 → Build (List Node)} (below : BuiltBelow rows row (children row.id)) :
    (buildNode rows children row.id).outcome = (tree rows row).mapError .table ∧
      (buildNode rows children row.id).Follows ((preorder rows row).map (·.id)) := by
  have found := rooted.lookUp_eq (rooted.mem_of_reaches reaches)
  constructor
  · rw [buildNode, found, rooted.tree_eq reaches, mapError_bind]
    simp only [Build.outcome_bind, below.outcome, mapError_bind]
    rfl
  · have here : Build.Follows (lookUp rows row.id) [row.id] := by
      rw [found]
      exact ⟨List.prefix_rfl, fun _ _ => rfl⟩
    rw [rooted.preorder_eq reaches, List.map_cons]
    refine here.bind fun value _ => (Build.follows_nil _).bind fun content _ => ?_
    have whole := below.follows.bind fun values _ =>
      Build.follows_nil (.ok (Node.mk row.id content values))
    rwa [List.append_nil] at whole

/-- As many nested calls are enough as a branch can still get longer. -/
theorem builtBelow (rooted : Rooted rows root) {above : List Row}
    (branch : Branch rows root row above) {limit : Nat}
    (enough : rows.length ≤ above.length + limit) :
    BuiltBelow rows row (buildChildren rows limit row.id) := by
  induction limit generalizing row above with
  | zero =>
    have shorter := rooted.branch_length_lt branch
    omega
  | succ limit inductionHypothesis =>
    have each : ∀ child ∈ childRows rows row.id,
        (buildNode rows (buildChildren rows limit) child.id).outcome =
            (tree rows child).mapError .table ∧
          (buildNode rows (buildChildren rows limit) child.id).Follows
            ((preorder rows child).map (·.id)) := by
      intro child member
      have longer := Branch.child branch (mem_childRows_iff.mp member)
      refine rooted.buildNode_eq (reaches_iff_branch.mpr ⟨_, longer⟩)
        (inductionHypothesis longer ?_)
      simp only [List.length_cons]
      omega
    have byRows : buildChildren rows (limit + 1) row.id =
        (childRows rows row.id).mapM fun child =>
          buildNode rows (buildChildren rows limit) child.id := by
      rw [buildChildren, childIds, List.mapM_map]
      rfl
    rw [byRows]
    constructor
    · rw [Build.outcome_mapM, mapError_mapM]
      exact mapM_congr fun child member => (each child member).1
    · rw [List.map_flatMap]
      exact Build.follows_mapM fun child member => (each child member).2

/-- The calls that one call makes come to an end everywhere below the root. -/
theorem acc_childIds (rooted : Rooted rows root) (reaches : Reaches rows root row) :
    Acc (fun child parent => child ∈ childIds rows parent) row.id := by
  refine rooted.downward (motive := fun row =>
    Acc (fun child parent => child ∈ childIds rows parent) row.id) ?_ reaches
  intro row _ inductionHypothesis
  refine Acc.intro row.id fun id member => ?_
  obtain ⟨child, hangs, rfl⟩ := List.mem_map.mp member
  exact inductionHypothesis child hangs

end Rooted

/-- From the one root of a table whose ids are accepted, building by ids comes to an end within
as many nested calls as there are rows, with the result of the rows: the bound on the calls is
never reached and no id is missing. No id is looked up twice, nor the root again, and every id
is that of a row. Whether the parents of other rows are there does not matter. -/
theorem recursion_ends {rows : List Row} {root : Row} (ids : checkIds [] rows = .ok ())
    (single : childRows rows 0 = [root]) {limit : Nat} (enough : rows.length ≤ limit) :
    Acc (fun child parent => child ∈ childIds rows parent) root.id ∧
      (buildChildren rows limit root.id).outcome =
        ((childRows rows root.id).mapM (subtree rows rows.length)).mapError .table ∧
      (root.id :: (buildChildren rows limit root.id).visited).Nodup ∧
      ∀ id ∈ root.id :: (buildChildren rows limit root.id).visited, ∃ row ∈ rows, row.id = id := by
  have rooted : Rooted rows root := ⟨(checkIds_eq_ok_iff.mp ids).1, single⟩
  have built := rooted.builtBelow .root (by simpa using enough)
  have start : root.id :: (buildChildren rows limit root.id).visited <+:
      (preorder rows root).map (·.id) := by
    rw [rooted.preorder_eq .refl, List.map_cons, List.prefix_cons_inj]
    exact built.follows.start
  have inside : ∀ row ∈ preorder rows root, row ∈ rows := fun row member =>
    rooted.mem_of_reaches ((rooted.mem_preorder_iff .refl).mp member)
  refine ⟨rooted.acc_childIds .refl, built.outcome, ?_, ?_⟩
  · refine start.sublist.nodup ((rooted.preorder_nodup .refl).map_on ?_)
    intro first firstMem second secondMem same
    exact rooted.eq_of_id_eq (inside first firstMem) (inside second secondMem) same
  · intro id member
    obtain ⟨row, listed, same⟩ := List.mem_map.mp (start.subset member)
    exact ⟨row, inside row listed, same⟩

/-- A program with a class, beside a row that is its own parent and two that are each other's. -/
def circles : List Row :=
  [{ id := 1, kind := "program" }, { id := 2, parent := 1, kind := "normalClass", names := ["A"] },
    { id := 3, parent := 3, kind := "print" }, { id := 4, parent := 5, kind := "print" },
    { id := 5, parent := 4, kind := "print" }, { id := 6, parent := 2, kind := "print" }]

/-- Rows in circles do not keep the recursion from its end. -/
theorem recursion_ends_circles :
    checkIds [] circles = .ok () ∧ checkParents circles = .ok () ∧
      childRows circles 0 = [{ id := 1, kind := "program" }] ∧
      (buildChildren circles 6 1).visited = [2, 6] ∧
      (1 :: (buildChildren circles 6 1).visited).Nodup := by
  have single : childRows circles 0 = [{ id := 1, kind := "program" }] := rfl
  exact ⟨rfl, rfl, single, rfl, (recursion_ends rfl single (Nat.le_refl 6)).2.2.1⟩

end Treescribe.Table
