/-!
# Modifiers

The access and `static` keywords in force at a place of the program.
-/

namespace Treescribe

/-- Who may use a member. -/
inductive Access where
  | privateAccess
  | publicAccess
deriving DecidableEq, Repr

/-- The keyword of an access. -/
def Access.keyword : Access → String
  | .privateAccess => "private"
  | .publicAccess => "public"

/-- The modifiers set by the blocks around a place. -/
structure Modifiers where
  access : Option Access := none
  isStatic : Bool := false
deriving DecidableEq, Repr

/-- The keywords to write, with a default for an access that no block sets. -/
def Modifiers.keywords (modifiers : Modifiers) (default : Option Access) : List String :=
  ((modifiers.access.or default).map Access.keyword).toList ++
    (if modifiers.isStatic then ["static"] else [])

end Treescribe
