import Treescribe.Layout

/-!
# Emitting text

An emitter lays out the text it is given and appends it to a sink, which may
refuse what does not fit.
-/

namespace Treescribe

/-- Why a sink refuses a text. -/
inductive SinkError where
  | full
deriving DecidableEq, Repr

/-- What is reported about a refused text. -/
def SinkError.message : SinkError → String
  | .full => "sink full"

/-- The text written so far, and the number of bytes it may not exceed. -/
structure Sink where
  limit : Option Nat := none
  text : String := ""
deriving DecidableEq, Repr

/-- Appends a text as a whole, or refuses it. -/
def Sink.append (sink : Sink) (text : String) : Except SinkError Sink :=
  let grown := { sink with text := sink.text ++ text }
  match sink.limit with
  | none => .ok grown
  | some limit =>
    if sink.text.utf8ByteSize + text.utf8ByteSize ≤ limit then .ok grown else .error .full

/-- What an emitter can be asked to do. -/
inductive Call where
  /-- Writes a text, a semicolon if it is a terminated statement, and so many
  line feeds, which compact layout leaves out. -/
  | write (text : String) (newlines : Nat) (terminated : Bool)
  | indent
  | dedent
deriving DecidableEq, Repr

/-- A sink, and where the next text stands in the layout. -/
structure Emitter where
  layout : Layout
  depth : Nat := 0
  atLineStart : Bool := true
  sink : Sink := {}
deriving DecidableEq, Repr

namespace Emitter

/-- So many copies of a character. -/
def repeated (count : Nat) (c : Char) : String :=
  String.ofList (List.replicate count c)

/-- The white space before a text: four spaces for each level of indentation, at
the start of a line. -/
def indentation (emitter : Emitter) (text : String) : String :=
  if emitter.layout = .pretty && emitter.atLineStart && text != "" then
    repeated (4 * emitter.depth) ' '
  else ""

/-- A text as it is laid out. -/
def laidOut (emitter : Emitter) (text : String) (newlines : Nat) (terminated : Bool) : String :=
  emitter.indentation text ++ text ++ (if terminated then ";" else "") ++
    (if emitter.layout = .pretty then repeated newlines '\n' else "")

/-- Whether the output stands at the start of a line after one more text. -/
def lineStartAfter (emitter : Emitter) (text : String) : Bool :=
  match text.toList.getLast? with
  | none => emitter.atLineStart
  | some last => last == '\n'

/-- Lays out a text and appends it to the sink. The start of a line is noted
whether or not the sink takes the text. -/
def write (emitter : Emitter) (text : String) (newlines : Nat) (terminated : Bool) :
    Except SinkError Unit × Emitter :=
  let text := emitter.laidOut text newlines terminated
  let emitter := { emitter with atLineStart := emitter.lineStartAfter text }
  match emitter.sink.append text with
  | .ok sink => (.ok (), { emitter with sink })
  | .error error => (.error error, emitter)

/-- Does what it is asked to do. -/
def perform (emitter : Emitter) : Call → Except SinkError Unit × Emitter
  | .write text newlines terminated => emitter.write text newlines terminated
  | .indent => (.ok (), { emitter with depth := emitter.depth + 1 })
  | .dedent => (.ok (), { emitter with depth := emitter.depth - 1 })

end Emitter

end Treescribe
