/-!
# Messages

A message is the table of a parse tree: one row for each node, which names its
parent by id. The id zero stands for the parent of the root.
-/

namespace Treescribe

/-- A parameter of a function, as it is written. -/
structure Parameter where
  name : String
  type : Option String := none
  default : Option String := none
deriving DecidableEq, Repr

/-- A segment of a chain. Without an argument list it is no call. -/
structure Segment where
  name : String
  arguments : Option (List String) := none
deriving DecidableEq, Repr

/-- A row of the table. What its fields mean depends on its kind. -/
structure Row where
  id : UInt64
  parent : UInt64 := 0
  kind : String
  names : List String := []
  type : Option String := none
  value : Option String := none
  values : List String := []
  text : Option String := none
  newline : Bool := false
  parameters : List Parameter := []
  segments : List Segment := []
deriving DecidableEq, Repr

/-- The rows of a parse tree, in table order. -/
structure Message where
  rows : List Row
deriving DecidableEq, Repr

end Treescribe
