import Treescribe.CommandLine.Arguments
import Treescribe.FileTree
import Treescribe.OutputPath
import Treescribe.Transcript

/-!
# Runs of the command line

What a run prints, which file it writes and with which code it ends. The source
file itself is never opened: the message comes on standard input.
-/

namespace Treescribe.CommandLine

/-- The name and version that the program gives itself. -/
def versionText : String := "nishic 0.1.0\n"

/-- The help that the program gives. -/
def helpText : String :=
  "Translates a Nishi program into C#. The front end pipes the program's parse tree into " ++
    "standard input\n\nUsage: nishic [OPTIONS]\n\nOptions:\n" ++
    "  -f, --file <FILE>  The Nishi file\n  -p, --pretty       Pretty print the C# file\n" ++
    "  -h, --help         Print help\n  -V, --version      Print version\n"

/-- A file to be written. -/
structure Output where
  path : Path
  text : String
deriving DecidableEq, Repr

/-- What a run does: what it prints, the file it writes, its exit code if that
file can be created, and what it reports beside. -/
structure Run where
  printed : String := ""
  output : Option Output := none
  exitCode : Nat
  reports : List String := []
deriving DecidableEq, Repr

/-- The exit code of a run that failed. -/
def failureCode : Nat := 1

/-- The exit code of a run with wrong arguments. -/
def usageCode : Nat := 2

/-- The line that reports a notice. -/
def noticeLine (notice : Notice) : String :=
  "warning: " ++ notice.message

/-- What is reported of a run without being asked: its warnings. -/
def warnings (notices : List Notice) : List String :=
  (notices.filter (·.severity == .warn)).map noticeLine

/-- A run that transcribes the message of a source file. -/
def transcribeRun (source : Path) (layout : Layout) (input : List UInt8) : Run :=
  match Message.read input with
  | .error error =>
    let cause :=
      match error with
      | .malformed => "the message is not well formed"
      | .table error => error.message
    { exitCode := failureCode
      reports := ["error: Unable to read the parse tree for " ++ source.display ++ ": " ++
        cause] }
  | .ok (program, notices) =>
    let transcript := program.transcribe { layout, preamble := true } {}
    let written : Output := { path := outputPath source, text := transcript.text }
    let reports := warnings (notices ++ transcript.notices)
    match transcript.result with
    | .ok () => { output := some written, exitCode := 0, reports }
    | .error error =>
      { output := some written, exitCode := failureCode,
        reports := reports ++ ["error: " ++ error.message] }

/-- Whether a run reads its input. -/
def readsInput (arguments : List String) : Bool :=
  match read arguments with
  | .ok (.transcribe (some _) _) => true
  | _ => false

/-- The run that a command line asks for, on some input. -/
def Request.run (request : Request) (input : List UInt8) : Run :=
  match request with
  | .version => { printed := versionText, exitCode := 0 }
  | .help => { printed := helpText, exitCode := 0 }
  | .transcribe none _ => { exitCode := 0 }
  | .transcribe (some source) layout => transcribeRun source layout input

/-- The run of a command line on some input. -/
def run (arguments : List String) (input : List UInt8) : Run :=
  match read arguments with
  | .error error => { exitCode := usageCode, reports := ["error: " ++ error.message] }
  | .ok request => request.run input

/-- The exit code of a run in a file tree, and the tree it leaves. A file that
cannot be created is a failure and changes nothing. -/
def Run.within (run : Run) (tree : FileTree) : Nat × FileTree :=
  match run.output with
  | none => (run.exitCode, tree)
  | some output =>
    match tree.creates? output.path with
    | none => (failureCode, tree)
    | some place => (run.exitCode, tree.store place output.text)

end Treescribe.CommandLine
