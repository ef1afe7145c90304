import Treescribe.Text.Bytes

/-!
# Paths

A path of the file system is made of bytes, which need not be text.
-/

namespace Treescribe

/-- The bytes of a path. -/
structure Path where
  bytes : List UInt8
deriving DecidableEq, Repr

namespace Path

/-- The byte between the names of a path. -/
abbrev slash : UInt8 := 0x2F

/-- The byte of which the names of the same and of the upper directory are made. -/
abbrev dot : UInt8 := 0x2E

/-- The path that a text spells. -/
def ofText (text : String) : Path :=
  ⟨Text.encode text.toList⟩

/-- The text that shows a path. -/
def display (path : Path) : String :=
  String.ofList (Text.lossy path.bytes)

end Path

end Treescribe
