import Treescribe.Layout
import Treescribe.Path

/-!
# Arguments

The options of the command line. Short options may be joined, and the last of
them may be followed by its value directly, behind an equals sign or in the next
argument.
-/

namespace Treescribe.CommandLine

/-- What a command line asks for. -/
inductive Request where
  /-- Transcribe the program of a source file, if one is named. -/
  | transcribe (source : Option Path) (layout : Layout)
  | version
  | help
deriving DecidableEq, Repr

/-- What is wrong with a command line. -/
inductive UsageError where
  | unexpectedArgument (argument : String)
  | missingValue (option : String)
  | unexpectedValue (option : String)
  | repeatedOption (option : String)
deriving DecidableEq, Repr

/-- What is reported about a wrong command line. -/
def UsageError.message : UsageError → String
  | .unexpectedArgument argument => "unexpected argument '" ++ argument ++ "' found"
  | .missingValue option =>
    "a value is required for '" ++ option ++ "' but none was supplied"
  | .unexpectedValue option => "unexpected value for '" ++ option ++ "' found"
  | .repeatedOption option =>
    "the argument '" ++ option ++ "' cannot be used multiple times"

/-- The options read so far. -/
structure Chosen where
  source : Option Path := none
  pretty : Bool := false
deriving DecidableEq, Repr

namespace Chosen

/-- The request of complete options. -/
def request (chosen : Chosen) : Request :=
  .transcribe chosen.source (if chosen.pretty then .pretty else .compact)

/-- Names the source file, which may not be empty and is named once. -/
def setSource (chosen : Chosen) (source : String) : Except UsageError Chosen :=
  if source.isEmpty then .error (.missingValue "--file <FILE>")
  else if chosen.source.isSome then .error (.repeatedOption "--file <FILE>")
  else .ok { chosen with source := some (Path.ofText source) }

/-- Asks for pretty text, which is asked for once. -/
def setPretty (chosen : Chosen) : Except UsageError Chosen :=
  if chosen.pretty then .error (.repeatedOption "--pretty")
  else .ok { chosen with pretty := true }

end Chosen

/-- How one argument is taken. -/
inductive Step where
  /-- The options including those of the argument. -/
  | go (chosen : Chosen)
  /-- The next argument is the name of the source file. -/
  | wantsSource (chosen : Chosen)
  /-- The rest of the arguments does not matter. -/
  | stop (request : Request)
deriving DecidableEq, Repr

/-- Takes joined short options. -/
def shortOptions (chosen : Chosen) : List Char → Except UsageError Step
  | [] => .ok (.go chosen)
  | 'p' :: rest => do
    let chosen ← chosen.setPretty
    shortOptions chosen rest
  | 'V' :: _ => .ok (.stop .version)
  | 'h' :: _ => .ok (.stop .help)
  | ['f'] => .ok (.wantsSource chosen)
  | 'f' :: '=' :: value => (chosen.setSource (String.ofList value)).map .go
  | 'f' :: value => (chosen.setSource (String.ofList value)).map .go
  | option :: _ => .error (.unexpectedArgument (String.ofList ['-', option]))

/-- Takes a long option, the text of which may hold its value behind an equals
sign. -/
def longOption (chosen : Chosen) (text : List Char) : Except UsageError Step :=
  let name := String.ofList (text.takeWhile (· != '='))
  let value : Option String :=
    match text.dropWhile (· != '=') with
    | [] => none
    | _ :: value => some (String.ofList value)
  match name, value with
  | "file", none => .ok (.wantsSource chosen)
  | "file", some value => (chosen.setSource value).map .go
  | "pretty", none => chosen.setPretty.map .go
  | "version", none => .ok (.stop .version)
  | "help", none => .ok (.stop .help)
  | name, value =>
    if value.isSome && (name == "pretty" || name == "version" || name == "help") then
      .error (.unexpectedValue ("--" ++ name))
    else .error (.unexpectedArgument ("--" ++ name))

/-- Takes one argument. Only options are expected. -/
def argument (chosen : Chosen) (text : String) : Except UsageError Step :=
  match text.toList with
  | '-' :: '-' :: option => longOption chosen option
  | '-' :: option :: options => shortOptions chosen (option :: options)
  | _ => .error (.unexpectedArgument text)

/-- Whether an argument can be the value of the option before it: a dash opens an
option unless it stands alone. -/
def isValue (text : String) : Bool :=
  text.toList.head? != some '-' || text == "-"

/-- Reads the arguments behind those that led to the chosen options. A double
dash ends the options, and nothing may follow it. -/
def readFrom (chosen : Chosen) : List String → Except UsageError Request
  | [] => .ok chosen.request
  | ["--"] => .ok chosen.request
  | "--" :: text :: _ => .error (.unexpectedArgument text)
  | text :: rest => do
    match ← argument chosen text with
    | .go chosen => readFrom chosen rest
    | .stop request => return request
    | .wantsSource chosen =>
      match rest with
      | [] => throw (.missingValue "--file <FILE>")
      | value :: rest =>
        if isValue value then
          let chosen ← chosen.setSource value
          readFrom chosen rest
        else throw (.missingValue "--file <FILE>")

/-- Reads a whole command line. -/
def read (arguments : List String) : Except UsageError Request :=
  readFrom {} arguments

end Treescribe.CommandLine
