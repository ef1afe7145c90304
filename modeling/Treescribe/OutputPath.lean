import Treescribe.Path

/-!
# Output paths

The output file stands beside its source and is named after it, up to the first
dot of the source's name. Paths are slash-separated; empty and `.` components
count for nothing, except a `.` that starts a relative path. The name of the
source is read as text, so the output file has a proper name even if the source
has none.
-/

namespace Treescribe

namespace OutputPath

open Treescribe.Path (slash dot)

/-- The part of a path that no later part can change: the root slash, or a
leading `.` component. -/
def anchor : List UInt8 → List UInt8
  | [] => []
  | first :: rest =>
    if first = slash then [slash]
    else if first = dot ∧ (rest = [] ∨ rest.head? = some slash) then [dot]
    else []

/-- The pieces of a path behind its anchor. -/
def pieces (path : List UInt8) : List (List UInt8) :=
  (path.drop (anchor path).length).splitOn slash

/-- A piece that is no component: nothing between two slashes, or a dot. -/
def isIdle (piece : List UInt8) : Bool :=
  piece == [] || piece == [dot]

/-- The pieces without the idle ones at the end. -/
def dropIdleEnd (pieces : List (List UInt8)) : List (List UInt8) :=
  (pieces.reverse.dropWhile isIdle).reverse

/-- The file name of a path and the text of the path before it, less the
separators and dots next to the name. A path that ends in `..`, or that has no
components, has no file name. -/
def split? (path : List UInt8) : Option (List UInt8 × List UInt8) :=
  match (pieces path).reverse.dropWhile isIdle with
  | [] => none
  | name :: before =>
    if name == [dot, dot] then none
    else
      let parent := dropIdleEnd before.reverse
      some (anchor path ++ List.intercalate [slash] parent, name)

/-- A name under a path, with a slash between unless the path is empty or ends
in one. -/
def push (path name : List UInt8) : List UInt8 :=
  match path.getLast? with
  | none => name
  | some last => if last = slash then path ++ name else path ++ [slash] ++ name

/-- A file name up to its first dot, with the extension of the target. -/
def targetName (name : List UInt8) : List UInt8 :=
  Text.encode ((Text.lossy name).takeWhile (· != '.') ++ ".cs".toList)

/-- The output path for a source path. A source path without a file name is
taken as a directory. -/
def ofBytes (path : List UInt8) : List UInt8 :=
  match split? path with
  | some (parent, name) => push parent (targetName name)
  | none => push path (targetName [])

end OutputPath

/-- The path of the output file for the source file at a path. -/
def outputPath (path : Path) : Path :=
  ⟨OutputPath.ofBytes path.bytes⟩

end Treescribe
