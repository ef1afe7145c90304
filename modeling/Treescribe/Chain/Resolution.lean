/-!
# Resolutions

The segments of a chain are told apart by what their names refer to.
-/

namespace Treescribe

/-- What the name of a chain segment refers to. -/
inductive Resolution where
  /-- A known class, of which an object is constructed. -/
  | construction
  /-- A name declared in the innermost scope. -/
  | localReference
  | pathSegment
deriving DecidableEq, Repr

/-- The name of a resolution. -/
def Resolution.name : Resolution → String
  | .construction => "Construction"
  | .localReference => "LocalReference"
  | .pathSegment => "PathSegment"

end Treescribe
