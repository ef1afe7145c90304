import Treescribe.Notice

/-!
# Scopes

The class and function bodies around a place, innermost first, each with the
names declared in it.
-/

namespace Treescribe

/-- A class or function body being written. -/
structure Frame where
  kind : ScopeKind
  name : String
  declared : List String := []
  /-- The header of the body was written, so its end has to be, too. -/
  emitted : Bool
deriving DecidableEq, Repr

namespace Frame

/-- Whether a name is declared in a body. -/
def isDeclared (frame : Frame) (name : String) : Bool :=
  frame.declared.contains name

/-- Declares a name in a body. -/
def declare (frame : Frame) (name : String) : Frame :=
  if frame.isDeclared name then frame else { frame with declared := name :: frame.declared }

end Frame

/-- The bodies around a place, innermost first. -/
abbrev Scopes := List Frame

namespace Scopes

/-- The innermost class body. -/
def enclosingClass? (scopes : Scopes) : Option Frame :=
  scopes.find? (·.kind == .classBody)

/-- Declares a name in the innermost body. -/
def declare (scopes : Scopes) (name : String) : Scopes :=
  match scopes with
  | [] => []
  | frame :: outer => frame.declare name :: outer

/-- What is reported when a body is entered. -/
def entering (scopes : Scopes) (frame : Frame) : Notice :=
  .enteredScope frame.kind frame.name scopes.length

/-- What is reported when the innermost body is left. -/
def leaving : Scopes → List Notice
  | [] => []
  | frame :: _ => [.leftScope frame.kind frame.name]

end Scopes

end Treescribe
