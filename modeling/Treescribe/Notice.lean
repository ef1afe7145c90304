import Treescribe.Chain.Resolution
import Treescribe.Scope.Kind

/-!
# Notices

What a run reports beside its result. Each notice is a cause; `message` gives
its wording.
-/

namespace Treescribe

/-- How much a notice matters. -/
inductive Severity where
  | debug
  | warn
deriving DecidableEq, Repr

/-- The causes a run reports. -/
inductive Notice where
  /-- Rows of the table that hang under no program. -/
  | unreachable (count : Nat)
  /-- A program was read, with so many nodes, itself included. -/
  | parsed (root : UInt64) (size : Nat)
  | secondPackage (path : List String)
  | functionOutsideClass (name : String)
  | assignmentOutsideScope (target : String)
  /-- A field without annotation whose value has no evident type. -/
  | untypedField
  | enteredScope (kind : ScopeKind) (name : String) (depth : Nat)
  | leftScope (kind : ScopeKind) (name : String)
  | registeredClass (name : String)
  | resolvedSegment (name : String) (resolution : Resolution)
deriving DecidableEq, Repr

namespace Notice

/-- Input that is left out or guessed at is worth a warning. -/
def severity : Notice → Severity
  | .unreachable _ => .warn
  | .parsed _ _ => .debug
  | .secondPackage _ => .warn
  | .functionOutsideClass _ => .warn
  | .assignmentOutsideScope _ => .warn
  | .untypedField => .warn
  | .enteredScope _ _ _ => .debug
  | .leftScope _ _ => .debug
  | .registeredClass _ => .debug
  | .resolvedSegment _ _ => .debug

/-- The wording of a notice. -/
def message : Notice → String
  | .unreachable count =>
    "Ignoring " ++ toString count ++ " node(s) not reachable from the program root."
  | .parsed root size =>
    "Parsed program " ++ toString root ++ " with " ++ toString size ++ " node(s)."
  | .secondPackage path => "Ignoring second package declaration '" ++ ".".intercalate path ++ "'."
  | .functionOutsideClass name =>
    "Function '" ++ name ++ "' is not inside a class, skipping its header."
  | .assignmentOutsideScope target =>
    "Assignment to '" ++ target ++ "' outside any class or function, skipping."
  | .untypedField => "Unable to infer a field type from its initializer, falling back to var."
  | .enteredScope kind name depth =>
    "Entering " ++ kind.name ++ " scope '" ++ name ++ "' at depth " ++ toString depth ++ "."
  | .leftScope kind name => "Leaving " ++ kind.name ++ " scope '" ++ name ++ "'."
  | .registeredClass name => "Registered class '" ++ name ++ "'."
  | .resolvedSegment name resolution =>
    "Chain segment '" ++ name ++ "' resolved as " ++ resolution.name ++ "."

end Notice

end Treescribe
