import Treescribe.Message.Basic
import Treescribe.Scope.Frame
import Treescribe.Value.Rendering

/-!
# Chains

A chain is a path of names and calls. A segment that names a known class
constructs an object of it.
-/

namespace Treescribe

namespace Segment

/-- What a segment refers to: a known class before a declared name. -/
def resolve (classes : List String) (frame : Option Frame) (segment : Segment) : Resolution :=
  if segment.name ∈ classes then .construction
  else if frame.any (·.isDeclared segment.name) then .localReference
  else .pathSegment

/-- The text of a segment with a given resolution. -/
def code (layout : Layout) (segment : Segment) (resolution : Resolution) : String :=
  match resolution, segment.arguments with
  | .construction, arguments =>
    "new " ++ segment.name ++ "(" ++ Value.codes layout (arguments.getD []) ++ ")"
  | _, some arguments => segment.name ++ "(" ++ Value.codes layout arguments ++ ")"
  | _, none => segment.name

end Segment

namespace Chain

/-- Writes the segment at an index behind what is written already, and a dot unless it is the
last one. -/
def writeSegment (layout : Layout) (classes : List String) (frame : Option Frame)
    (segments : List Segment) (index : Nat) (inside : index < segments.length)
    (written : String) : String :=
  let segment := segments[index]
  let more := written ++ segment.code layout (segment.resolve classes frame)
  if index + 1 < segments.length then more ++ "." else more

/-- The text of a chain, written segment by segment. -/
def code (layout : Layout) (classes : List String) (frame : Option Frame)
    (segments : List Segment) : String :=
  segments.length.fold (writeSegment layout classes frame segments) ""

/-- What is reported about the segments of a chain. -/
def notices (classes : List String) (frame : Option Frame) (segments : List Segment) :
    List Notice :=
  segments.map fun segment => .resolvedSegment segment.name (segment.resolve classes frame)

end Chain

end Treescribe
