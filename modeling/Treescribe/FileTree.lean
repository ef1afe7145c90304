import Treescribe.Path

/-!
# File trees

The part of a file system that a run can see: directories, files with their
texts, and the directory that relative paths start from. A place is the list of
names that leads to it from the root.
-/

namespace Treescribe

/-- The name of a file or of a directory. -/
abbrev FileName := List UInt8

/-- Directories and files. The root is always a directory. -/
structure FileTree where
  directories : List (List FileName) := []
  files : List (List FileName × String) := []
  working : List FileName := []
deriving DecidableEq, Repr

namespace FileTree

open Treescribe.Path (slash dot)

/-- The number of bytes that a name may have. -/
def nameLimit : Nat := 255

/-- The number of bytes that a whole path has to stay below. -/
def pathLimit : Nat := 4096

/-- Whether a place is a directory. -/
def isDirectory (tree : FileTree) (place : List FileName) : Bool :=
  place.isEmpty || tree.directories.contains place

/-- The directory that names lead to from another one. Each directory on the way
has to exist; `..` leads back up, and the root is above itself. -/
def follow? (tree : FileTree) (place : List FileName) : List FileName → Option (List FileName)
  | [] => some place
  | name :: rest =>
    if name = [] || name = [dot] then tree.follow? place rest
    else if name = [dot, dot] then tree.follow? place.dropLast rest
    else if tree.isDirectory (place ++ [name]) then tree.follow? (place ++ [name]) rest
    else none

/-- The names in a path, separated by slashes. -/
def names (path : Path) : List FileName :=
  path.bytes.splitOn slash

/-- Where a path starts: at the root, or in the working directory. -/
def origin (tree : FileTree) (path : Path) : List FileName :=
  if path.bytes.head? = some slash then [] else tree.working

/-- The place where a path creates a file, if it can. -/
def creates? (tree : FileTree) (path : Path) : Option (List FileName) :=
  match (names path).getLast? with
  | none => none
  | some name =>
    match tree.follow? (tree.origin path) (names path).dropLast with
    | none => none
    | some directory =>
      let place := directory ++ [name]
      if path.bytes.length < pathLimit && name.length ≤ nameLimit &&
          !tree.isDirectory place then
        some place
      else none

/-- The tree with a file at a place, in place of one that was there. -/
def store (tree : FileTree) (place : List FileName) (text : String) : FileTree :=
  { tree with files := (place, text) :: tree.files.filter (·.1 != place) }

end FileTree

end Treescribe
