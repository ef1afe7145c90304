import Treescribe.Tree.Basic

/-!
# Walking a tree

A walk enters a node, walks its children in order and leaves the node again. What
happens on the way is up to a hook, which runs in a monad of its own: in one with
failure the walk stops where a hook fails.
-/

namespace Treescribe

/-- What a visit is about. -/
inductive Subject where
  | root (program : Program)
  | inner (node : Node)
deriving Repr

/-- The id of the program or node visited. -/
def Subject.id : Subject → UInt64
  | .root program => program.id
  | .inner node => node.id

/-- The kind of the program or node visited. -/
def Subject.kind : Subject → Kind
  | .root _ => .program
  | .inner node => node.kind

/-- One step of a walk. -/
inductive Visit where
  | enter (subject : Subject)
  | exit (subject : Subject)
deriving Repr

namespace Node

mutual

/-- Walks a subtree. -/
def walk {m : Type → Type} [Monad m] (hook : Visit → m Unit) : Node → m Unit
  | ⟨id, content, children⟩ => do
    hook (.enter (.inner ⟨id, content, children⟩))
    walkAll hook children
    hook (.exit (.inner ⟨id, content, children⟩))

/-- Walks several subtrees one after another. -/
def walkAll {m : Type → Type} [Monad m] (hook : Visit → m Unit) : List Node → m Unit
  | [] => pure ()
  | node :: rest => do
    walk hook node
    walkAll hook rest

end

mutual

/-- The visits of a walk through a subtree, in order. -/
def visits : Node → List Visit
  | ⟨id, content, children⟩ =>
    .enter (.inner ⟨id, content, children⟩) :: visitsAll children ++
      [.exit (.inner ⟨id, content, children⟩)]

/-- The visits of a walk through several subtrees. -/
def visitsAll : List Node → List Visit
  | [] => []
  | node :: rest => visits node ++ visitsAll rest

end

mutual

/-- Walking a subtree is running the hook over its visits. -/
theorem walk_eq_forM {m : Type → Type} [Monad m] [LawfulMonad m] (hook : Visit → m Unit) :
    (node : Node) → walk hook node = (visits node).forM hook
  | ⟨id, content, children⟩ => by
    simp [walk, visits, walkAll_eq_forM hook children]

/-- Walking several subtrees is running the hook over all their visits. -/
theorem walkAll_eq_forM {m : Type → Type} [Monad m] [LawfulMonad m] (hook : Visit → m Unit) :
    (nodes : List Node) → walkAll hook nodes = (visitsAll nodes).forM hook
  | [] => by simp [walkAll, visitsAll]
  | node :: rest => by
    simp [walkAll, visitsAll, walk_eq_forM hook node, walkAll_eq_forM hook rest]

end

mutual

/-- The nodes of a subtree, each before those below it. -/
def preorder : Node → List Node
  | ⟨id, content, children⟩ => ⟨id, content, children⟩ :: preorderAll children

/-- The nodes of several subtrees, each before those below it. -/
def preorderAll : List Node → List Node
  | [] => []
  | node :: rest => preorder node ++ preorderAll rest

end

end Node

namespace Program

/-- Walks a program. -/
def walk {m : Type → Type} [Monad m] (hook : Visit → m Unit) (program : Program) : m Unit := do
  hook (.enter (.root program))
  Node.walkAll hook program.children
  hook (.exit (.root program))

/-- The visits of a walk through a program, in order. -/
def visits (program : Program) : List Visit :=
  .enter (.root program) :: Node.visitsAll program.children ++ [.exit (.root program)]

/-- The nodes below a program, each before those below it. -/
def nodes (program : Program) : List Node :=
  Node.preorderAll program.children

/-- The program or node with an id, the first one in preorder. -/
def find? (program : Program) (id : UInt64) : Option Subject :=
  if program.id = id then some (.root program)
  else (program.nodes.find? (·.id = id)).map .inner

end Program

end Treescribe
