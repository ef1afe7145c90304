import Treescribe.Message.Read
import Treescribe.Session.Plan

/-!
# Transcripts

A program is transcribed by walking it with a session. A transcript that stops
short keeps the text written until then.
-/

namespace Treescribe

/-- A computation on a session that may stop, keeping the session it reached. -/
abbrev Transcribing := ExceptT TranscriptError (StateM Session)

/-- What a walk does at each visit. -/
def Session.hook (visit : Visit) : Transcribing Unit :=
  ExceptT.mk fun session => session.visit visit

/-- How a transcription ended. -/
structure Transcript where
  result : Except TranscriptError Unit
  session : Session

namespace Transcript

/-- The text written. -/
def text (transcript : Transcript) : String :=
  transcript.session.emitter.sink.text

/-- What was reported, earliest first. -/
def notices (transcript : Transcript) : List Notice :=
  transcript.session.notices.reverse

end Transcript

/-- Transcribes a program into a sink. -/
def Program.transcribe (program : Program) (options : Options) (sink : Sink) : Transcript :=
  let (result, session) := (program.walk Session.hook).run.run (Session.start options sink)
  { result, session }

/-- The text of a program, or why there is none. -/
def Program.toText (program : Program) (options : Options) : Except TranscriptError String :=
  let transcript := program.transcribe options {}
  transcript.result.map fun _ => transcript.text

end Treescribe
