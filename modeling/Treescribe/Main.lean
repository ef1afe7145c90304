import Treescribe.CommandLine.Run

/-!
# The program

Reads the message from standard input and carries out the run of the command
line in the file system.
-/

namespace Treescribe

/-- The bytes of a stream up to its end, behind those read already. -/
partial def readRest (stream : IO.FS.Stream) (bytes : ByteArray) : IO ByteArray := do
  let chunk ← stream.read 65536
  if chunk.isEmpty then return bytes else readRest stream (bytes ++ chunk)

/-- Writes the output file of a run. -/
def writeOutput (output : CommandLine.Output) : IO Bool := do
  try
    IO.FS.writeFile output.path.display output.text
    return true
  catch _ =>
    IO.eprintln ("error: Unable to create " ++ output.path.display)
    return false

end Treescribe

open Treescribe in
/-- Runs the command line. -/
def main (arguments : List String) : IO UInt32 := do
  let input ←
    if CommandLine.readsInput arguments then readRest (← IO.getStdin) .empty else pure .empty
  let run := CommandLine.run arguments input.toList
  IO.print run.printed
  let created ←
    match run.output with
    | none => pure true
    | some output => writeOutput output
  for line in run.reports do
    IO.eprintln line
  return if created then run.exitCode.toUInt32 else CommandLine.failureCode.toUInt32
