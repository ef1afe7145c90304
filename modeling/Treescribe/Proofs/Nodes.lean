import Treescribe.Tree.Visit

/-!
# The nodes of a program

Induction over a tree, and the preorder of its nodes. The program itself and the nodes
below it are the subjects of a program; their ids are its ids.
-/

namespace Treescribe

namespace Node

mutual

/-- What holds of a node whenever it holds of its children holds of every node. -/
theorem byChildren {motive : Node → Prop}
    (step : ∀ node : Node, (∀ child ∈ node.children, motive child) → motive node) :
    (node : Node) → motive node
  | ⟨id, content, children⟩ => step ⟨id, content, children⟩ (byChildrenAll step children)

/-- What holds of a node whenever it holds of its children holds of every node of a
list. -/
theorem byChildrenAll {motive : Node → Prop}
    (step : ∀ node : Node, (∀ child ∈ node.children, motive child) → motive node) :
    (nodes : List Node) → ∀ child ∈ nodes, motive child
  | [] => by simp
  | node :: rest => by
    intro child member
    rcases List.mem_cons.mp member with same | member
    · exact same ▸ byChildren step node
    · exact byChildrenAll step rest child member

end

/-- The nodes of several subtrees are those of each of them. -/
theorem preorderAll_eq_flatMap (nodes : List Node) :
    preorderAll nodes = nodes.flatMap preorder := by
  induction nodes with
  | nil => simp [preorderAll]
  | cons node rest inductionHypothesis =>
    simp [preorderAll, inductionHypothesis]

/-- A node comes before the nodes below it. -/
theorem preorder_eq (node : Node) :
    node.preorder = node :: node.children.flatMap preorder := by
  cases node with
  | mk id content children => rw [preorder, preorderAll_eq_flatMap]

/-- Where the size of each of several subtrees is the number of its nodes, so it is for
all of them together. -/
theorem sizeAll_eq_length {nodes : List Node}
    (each : ∀ node ∈ nodes, node.size = node.preorder.length) :
    sizeAll nodes = (nodes.flatMap preorder).length := by
  induction nodes with
  | nil => rw [sizeAll, List.flatMap_nil, List.length_nil]
  | cons node rest inductionHypothesis =>
    rw [sizeAll, List.flatMap_cons, List.length_append, each node (by simp),
      inductionHypothesis fun other member => each other (by simp [member])]

/-- The size of a subtree is the number of its nodes. -/
theorem size_eq_length (node : Node) : node.size = node.preorder.length := by
  induction node using byChildren with
  | step node inductionHypothesis =>
    rw [preorder_eq, List.length_cons, ← sizeAll_eq_length inductionHypothesis]
    cases node with
    | mk id content children => rw [size, Nat.add_comm]

end Node

/-- The nodes directly below a program or node. -/
def Subject.children : Subject → List Node
  | .root program => program.children
  | .inner node => node.children

namespace Program

/-- A program and the nodes below it, in preorder. -/
def subjects (program : Program) : List Subject :=
  .root program :: program.nodes.map .inner

/-- The ids of a program and of the nodes below it, in preorder. -/
def ids (program : Program) : List UInt64 :=
  program.id :: program.nodes.map (·.id)

/-- The nodes below a program are those of the subtrees of its children. -/
theorem nodes_eq_flatMap (program : Program) :
    program.nodes = program.children.flatMap Node.preorder :=
  Node.preorderAll_eq_flatMap program.children

/-- The size of a program is the number of its ids. -/
theorem size_eq_length (program : Program) : program.size = program.ids.length := by
  unfold size ids
  rw [Node.sizeAll_eq_length fun node _ => node.size_eq_length, nodes_eq_flatMap,
    List.length_cons, List.length_map, Nat.add_comm]

end Program

end Treescribe
