/-!
# Scanning around string literals

A source text mixes code with string literals in single quotes, double quotes or
backticks. `marks` says for every character whether it stands in code and how
many brackets are open before it. Brackets are counted without regard to their
type, and a closing bracket with none open is ignored.
-/

namespace Treescribe.Text

/-- The quote characters that open a string literal. -/
def isQuote (c : Char) : Bool :=
  c == '\'' || c == '"' || c == '\x60'

/-- Where a scan stands relative to string literals. -/
inductive ScanMode where
  | code
  | quoted (quote : Char)
  /-- Inside a literal, right behind a backslash. -/
  | escaped (quote : Char)
deriving DecidableEq, Repr

/-- A scan between two characters: its mode, and the number of open brackets. -/
structure ScanState where
  mode : ScanMode := .code
  depth : Nat := 0
deriving DecidableEq, Repr

/-- One character of code changes the depth or opens a literal; inside a literal
only its own quote, not escaped, leads back to code. -/
def ScanState.step (state : ScanState) (c : Char) : ScanState :=
  match state.mode with
  | .escaped quote => { state with mode := .quoted quote }
  | .quoted quote =>
    if c == '\\' then { state with mode := .escaped quote }
    else if c == quote then { state with mode := .code }
    else state
  | .code =>
    if isQuote c then { state with mode := .quoted c }
    else if c == '(' || c == '[' then { state with depth := state.depth + 1 }
    else if c == ')' || c == ']' then { state with depth := state.depth - 1 }
    else state

/-- The number of open brackets, for a scan that stands in code. -/
def ScanState.codeDepth? (state : ScanState) : Option Nat :=
  match state.mode with
  | .code => some state.depth
  | _ => none

/-- A character of a text, and the number of brackets open before it if it
stands in code. An opening quote stands in code, its closing quote does not. -/
structure Mark where
  char : Char
  depth? : Option Nat
deriving DecidableEq, Repr

/-- Whether a mark is a given character of code. -/
def Mark.isCode (mark : Mark) (c : Char) : Bool :=
  mark.char == c && mark.depth?.isSome

/-- Whether a mark is a given character of code at a given depth. -/
def Mark.isCodeAt (mark : Mark) (c : Char) (depth : Nat) : Bool :=
  mark.char == c && mark.depth? == some depth

/-- The marks of a text that follows the characters scanned so far. -/
def marksFrom (state : ScanState) : List Char → List Mark
  | [] => []
  | c :: rest => ⟨c, state.codeDepth?⟩ :: marksFrom (state.step c) rest

/-- The marks of a whole text. -/
def marks (text : List Char) : List Mark :=
  marksFrom {} text

/-- The text whose characters a list of marks holds. -/
def unmark (marks : List Mark) : List Char :=
  marks.map Mark.char

/-- Where a scan stands behind a text. -/
def ScanState.after (state : ScanState) (text : List Char) : ScanState :=
  text.foldl ScanState.step state

/-- Marking loses no character and adds none. -/
@[simp] theorem unmark_marksFrom (state : ScanState) (text : List Char) :
    unmark (marksFrom state text) = text := by
  induction text generalizing state with
  | nil => rfl
  | cons c rest inductionHypothesis =>
    exact congrArg (c :: ·) (inductionHypothesis (state.step c))

/-- A text is marked from left to right: the marks of its second part depend on
the first only through where the scan stands behind it. -/
theorem marksFrom_append (state : ScanState) (first second : List Char) :
    marksFrom state (first ++ second) =
      marksFrom state first ++ marksFrom (state.after first) second := by
  induction first generalizing state with
  | nil => rfl
  | cons c rest inductionHypothesis =>
    exact congrArg (_ :: ·) (inductionHypothesis (state.step c))

/-- Member access is written `@` in the source and `.` in the target. Only links
in code change. -/
def dotLinks (text : List Char) : List Char :=
  (marks text).map fun mark => if mark.isCode '@' then '.' else mark.char

end Treescribe.Text
