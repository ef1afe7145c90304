import Treescribe.TypeTag
import Treescribe.Emitter
import Treescribe.Modifiers
import Treescribe.Scope.Frame

/-!
# Sessions

A session is one transcription under way: the emitter, the bodies around the
current place, the classes seen so far and the modifiers in force. It changes by
actions, of which only a write can fail.
-/

namespace Treescribe

/-- Why a transcription stops. -/
inductive TranscriptError where
  | unknownType (error : UnknownType)
  | sink (error : SinkError)
deriving DecidableEq, Repr

/-- What is reported about a transcription that stopped. -/
def TranscriptError.message : TranscriptError → String
  | .unknownType unknown => unknown.message
  | .sink refusal => "IO error: " ++ refusal.message

/-- The state of a transcript. -/
structure Session where
  preamble : Bool
  emitter : Emitter
  scopes : Scopes := []
  /-- The classes entered so far, latest first. -/
  classes : List String := []
  modifiers : Modifiers := {}
  /-- A namespace block was opened and has to be closed at the end. -/
  inPackage : Bool := false
  /-- What was reported so far, latest first. -/
  notices : List Notice := []
deriving DecidableEq, Repr

/-- The changes a session can undergo. -/
inductive Action where
  | emit (call : Call)
  | enterScope (frame : Frame)
  | leaveScope
  | declare (name : String)
  | register (name : String)
  | setAccess (access : Option Access)
  | setStatic (isStatic : Bool)
  | openPackage
  | note (notice : Notice)
deriving DecidableEq, Repr

namespace Session

/-- A session at its start. -/
def start (options : Options) (sink : Sink) : Session :=
  { preamble := options.preamble, emitter := { layout := options.layout, sink } }

/-- The session with more notices, the first one earliest. -/
def report (session : Session) (notices : List Notice) : Session :=
  { session with notices := notices.reverse ++ session.notices }

/-- Carries out an action. A failed write leaves all but the emitter as it was. -/
def act (session : Session) : Action → Except TranscriptError Unit × Session
  | .emit call =>
    match session.emitter.perform call with
    | (.ok (), emitter) => (.ok (), { session with emitter })
    | (.error error, emitter) => (.error (.sink error), { session with emitter })
  | .enterScope frame =>
    (.ok (), { session.report [session.scopes.entering frame] with
      scopes := frame :: session.scopes })
  | .leaveScope =>
    (.ok (), { session.report session.scopes.leaving with scopes := session.scopes.tail })
  | .declare name => (.ok (), { session with scopes := session.scopes.declare name })
  | .register name => (.ok (), { session with classes := name :: session.classes })
  | .setAccess access =>
    (.ok (), { session with modifiers := { session.modifiers with access } })
  | .setStatic isStatic =>
    (.ok (), { session with modifiers := { session.modifiers with isStatic } })
  | .openPackage => (.ok (), { session with inPackage := true })
  | .note notice => (.ok (), session.report [notice])

/-- Carries out actions one after another, up to the first that fails. -/
def run (session : Session) : List Action → Except TranscriptError Unit × Session
  | [] => (.ok (), session)
  | action :: rest =>
    match session.act action with
    | (.ok (), session) => session.run rest
    | (.error error, session) => (.error error, session)

end Session

end Treescribe
