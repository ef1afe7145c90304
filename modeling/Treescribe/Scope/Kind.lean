/-!
# Kinds of scopes

Names are declared in the bodies of classes and functions.
-/

namespace Treescribe

/-- The bodies in which names are declared. -/
inductive ScopeKind where
  | classBody
  | functionBody
deriving DecidableEq, Repr

/-- The name of a kind of scope. -/
def ScopeKind.name : ScopeKind → String
  | .classBody => "Class"
  | .functionBody => "Function"

end Treescribe
