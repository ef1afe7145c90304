import Treescribe.Proofs.Session.Layouts
import Treescribe.Proofs.Session.Lines

/-!
# Texts with and without the preamble

The preamble is written on the way into the program and asked for nowhere else. Behind it a
pretty emitter stands at the start of a line, as it did before; a compact one does not, but
never looks. From there on a transcription with the preamble and one without it do the same:
they end alike, report the same, and one text is the other with the preamble before it.
-/

namespace Treescribe

/-- The directives that every complete file starts with, as they are laid out. -/
def Layout.preambleText : Layout → String
  | .compact => "using System;using System.Collections.Generic;"
  | .pretty => "using System;\nusing System.Collections.Generic;\n\n"

namespace Emitter

/-- Emitters that lay texts out alike and have done so since their sinks held two given texts:
the start of a line has to be the same only where it makes a difference. -/
structure InStep (held otherHeld : String) (first second : Emitter) : Prop where
  layout : first.layout = second.layout
  depth : first.depth = second.depth
  lineStart : second.layout = .pretty → first.atLineStart = second.atLineStart
  unlimited : first.sink.limit = none
  unlimitedOther : second.sink.limit = none
  text : ∃ written, first.sink.text = held ++ written ∧ second.sink.text = otherHeld ++ written

variable {held otherHeld : String} {first second : Emitter}

/-- Emitters in step lay a text out alike. -/
theorem InStep.laidOut (inStep : InStep held otherHeld first second) (text : String)
    (newlines : Nat) (terminated : Bool) :
    first.laidOut text newlines terminated = second.laidOut text newlines terminated := by
  have indented : first.indentation text = second.indentation text := by
    unfold indentation
    rw [inStep.layout, inStep.depth]
    cases pretty : second.layout with
    | compact => rfl
    | pretty => rw [inStep.lineStart pretty]
  unfold Emitter.laidOut
  rw [indented, inStep.layout]

/-- Emitters in step stay so when they make the same call. -/
theorem InStep.next (inStep : InStep held otherHeld first second) (call : Call) :
    InStep held otherHeld (first.next call) (second.next call) := by
  cases call with
  | write text newlines terminated =>
    rw [next_write_of_unlimited inStep.unlimited, next_write_of_unlimited inStep.unlimitedOther,
      inStep.laidOut]
    refine { inStep with lineStart := ?_, text := ?_ }
    · intro pretty
      unfold lineStartAfter
      rw [inStep.lineStart pretty]
    · obtain ⟨written, first, second⟩ := inStep.text
      dsimp only
      exact ⟨_, by rw [first, String.append_assoc], by rw [second, String.append_assoc]⟩
  | indent | dedent => exact { inStep with depth := by simp [Emitter.next, perform, inStep.depth] }

/-- Emitters in step stay so when they make the same calls. -/
theorem InStep.after (inStep : InStep held otherHeld first second) (calls : List Call) :
    InStep held otherHeld (first.after calls) (second.after calls) := by
  induction calls generalizing first second with
  | nil => exact inStep
  | cons call rest inductionHypothesis => exact inductionHypothesis (inStep.next call)

/-- Outside all blocks a text is laid out without indentation. -/
theorem laidOut_outside {emitter : Emitter} (outside : emitter.depth = 0) (text : String)
    (newlines : Nat) (terminated : Bool) :
    emitter.laidOut text newlines terminated =
      text ++ (if terminated then ";" else "") ++
        (if emitter.layout = .pretty then repeated newlines '\n' else "") := by
  have unindented : emitter.indentation text = "" := by
    unfold indentation
    rw [outside]
    split <;> rfl
  rw [laidOut, unindented, String.empty_append]

/-- The calls that write the preamble. -/
def preambleCalls : List Call :=
  [.write "using System" 1 true, .write "using System.Collections.Generic" 2 true]

/-- Behind the preamble an emitter is in step with what it was at its start. -/
theorem inStep_after_preamble {emitter : Emitter} (unlimited : emitter.sink.limit = none)
    (outside : emitter.depth = 0) (started : emitter.atLineStart = true) :
    InStep (emitter.sink.text ++ emitter.layout.preambleText) emitter.sink.text
      (emitter.after preambleCalls) emitter := by
  have depth : ∀ text newlines terminated (emitter : Emitter),
      (emitter.next (.write text newlines terminated)).depth = emitter.depth := by
    intro text newlines terminated emitter
    rw [next_write]
  have text : (emitter.after preambleCalls).sink.text =
      emitter.sink.text ++ emitter.layout.preambleText := by
    have grows : ∀ text newlines (emitter : Emitter), emitter.sink.limit = none →
        emitter.depth = 0 → (emitter.next (.write text newlines true)).sink.text =
          emitter.sink.text ++ (text ++ ";" ++
            if emitter.layout = .pretty then repeated newlines '\n' else "") := by
      intro text newlines emitter unlimited outside
      rw [next_write_of_unlimited unlimited, laidOut_outside outside]
      rfl
    simp only [after, preambleCalls, List.foldl_cons, List.foldl_nil]
    rw [grows _ _ _ (by simp [unlimited]) (by rw [depth, outside]), grows _ _ _ unlimited outside,
      next_layout, String.append_assoc]
    cases emitter.layout <;> rfl
  have lineStart : emitter.layout = .pretty →
      (emitter.after preambleCalls).atLineStart = emitter.atLineStart := by
    intro pretty
    rw [started]
    exact atLineStart_next (by rw [next_layout, pretty]) _ Nat.two_pos true
  exact {
    layout := by simp [after, preambleCalls]
    depth := by simp [after, preambleCalls, depth]
    lineStart
    unlimited := by rw [after_limit, unlimited]
    unlimitedOther := unlimited
    text := ⟨"", by rw [text, String.append_empty], by rw [String.append_empty]⟩ }

end Emitter

namespace Session

/-- A session but for its emitter and its options. -/
def course (session : Session) : Session :=
  { session.detached with preamble := false }

/-- A session behind an action, but for its emitter and its options. -/
def actCourse (session : Session) (action : Action) : Session :=
  (session.act action).2.course

/-- What an action makes of a session, emitter and options aside, depends on neither. -/
theorem act_course (session : Session) (action : Action) :
    (session.act action).2.course = actCourse session.course action := by
  cases action with
  | emit call =>
    rw [actCourse, act_emit, act_emit]
    rfl
  | enterScope | leaveScope | declare | register | setAccess | setStatic | openPackage | note =>
    rfl

/-- Only on the way into the program does a plan depend on whether the preamble is asked for. -/
theorem plan_of_course {first second : Session} (layout : first.layout = second.layout)
    (course : first.course = second.course) {visit : Visit}
    (inner : ∀ program, visit ≠ .enter (.root program)) :
    first.plan visit = second.plan visit := by
  obtain ⟨preamble, ⟨_, depth, atLineStart, sink⟩, scopes, classes, modifiers, inPackage,
    notices⟩ := first
  obtain ⟨otherPreamble, ⟨_, otherDepth, otherStart, otherSink⟩, otherScopes, otherClasses,
    otherModifiers, otherPackage, otherNotices⟩ := second
  cases layout
  cases course
  rcases visit with ⟨program | node⟩ | ⟨program | node⟩
  · exact absurd rfl (inner program)
  · rfl
  · rfl
  · rfl

/-- Sessions that are the same but for their emitters, which are in step, and their options. -/
structure InStep (held otherHeld : String) (first second : Session) : Prop where
  course : first.course = second.course
  emitters : Emitter.InStep held otherHeld first.emitter second.emitter

variable {held otherHeld : String} {first second : Session}

/-- Sessions in step stay so when they carry out the same actions, and neither fails. -/
theorem InStep.run (inStep : InStep held otherHeld first second) (actions : List Action) :
    (first.run actions).1 = (second.run actions).1 ∧
      InStep held otherHeld (first.run actions).2 (second.run actions).2 := by
  obtain ⟨final, ran, reached⟩ := run_of_unlimited inStep.emitters.unlimited actions
  obtain ⟨otherFinal, otherRan, otherReached⟩ :=
    run_of_unlimited inStep.emitters.unlimitedOther actions
  have course := run_view act_course ran
  have otherCourse := run_view act_course otherRan
  rw [ran, otherRan]
  refine ⟨rfl, ⟨?_, ?_⟩⟩
  · rw [course, otherCourse, inStep.course]
  · rw [reached, otherReached]
    exact inStep.emitters.after _

/-- Sessions in step answer alike to a visit behind the way into the program, and stay so. -/
theorem InStep.visit (inStep : InStep held otherHeld first second) {visit : Visit}
    (inner : ∀ program, visit ≠ .enter (.root program)) :
    (first.visit visit).1 = (second.visit visit).1 ∧
      InStep held otherHeld (first.visit visit).2 (second.visit visit).2 := by
  have planned := plan_of_course inStep.emitters.layout inStep.course inner
  unfold Session.visit
  rw [planned]
  cases second.plan visit with
  | error unknown => exact ⟨rfl, inStep⟩
  | ok actions => exact inStep.run actions

/-- Behind the preamble a session is in step with one that has not begun and asks for none. -/
theorem inStep_behind_preamble (program : Program) (layout : Layout) (held : String) :
    ∃ opened, (start ⟨layout, true⟩ { text := held }).visit (.enter (.root program)) =
        (.ok (), opened) ∧
      InStep (held ++ layout.preambleText) held opened (start ⟨layout, false⟩ { text := held }) := by
  have unlimited : (start ⟨layout, true⟩ { text := held }).emitter.sink.limit = none := rfl
  obtain ⟨opened, ran, reached⟩ := run_of_unlimited unlimited preambleActions
  have course := run_view act_course ran
  refine ⟨opened, ran, ⟨course, ?_⟩⟩
  rw [reached]
  exact @Emitter.inStep_after_preamble { layout, sink := { text := held } } rfl rfl rfl

end Session

/-- The program itself is not entered below it. -/
theorem Node.ne_enter_root {nodes : List Node} {visit : Visit} (member : visit ∈ visitsAll nodes)
    (program : Program) : visit ≠ .enter (.root program) := by
  rintro rfl
  have nested := nested_flatMap fun node (_ : node ∈ nodes) => node.nested_visits
  have entered : Subject.root program ∈ (visitsAll nodes).filterMap Visit.entered? :=
    List.mem_filterMap.mpr ⟨_, member, rfl⟩
  rw [visitsAll_eq_flatMap, nested.entered] at entered
  simp at entered

/-- With the preamble a transcription ends as it does without, reports the same, and writes
the same text behind the preamble. -/
theorem Program.preamble_comes_first (program : Program) (layout : Layout) (held : String) :
    (program.transcribe ⟨layout, true⟩ { text := held }).result =
        (program.transcribe ⟨layout, false⟩ { text := held }).result ∧
      (program.transcribe ⟨layout, true⟩ { text := held }).notices =
        (program.transcribe ⟨layout, false⟩ { text := held }).notices ∧
      ∃ written,
        (program.transcribe ⟨layout, false⟩ { text := held }).text = held ++ written ∧
        (program.transcribe ⟨layout, true⟩ { text := held }).text =
          held ++ layout.preambleText ++ written := by
  obtain ⟨opened, entered, inStep⟩ := Session.inStep_behind_preamble program layout held
  let rest := Node.visitsAll program.children ++ [.exit (.root program)]
  have inner : ∀ visit ∈ rest, ∀ other, visit ≠ .enter (.root other) := by
    intro visit member other
    rcases List.mem_append.mp member with below | last
    · exact Node.ne_enter_root below other
    · rw [List.mem_singleton.mp last]
      nofun
  have run : Session.listener.run program.visits (Session.start ⟨layout, true⟩ { text := held }) =
      Session.listener.run rest opened := by
    change Session.listener.run (.enter (.root program) :: rest) _ = _
    rw [Listener.run, Session.call_listener, entered]
  have otherRun : Session.listener.run program.visits
        (Session.start ⟨layout, false⟩ { text := held }) =
      Session.listener.run rest (Session.start ⟨layout, false⟩ { text := held }) := rfl
  obtain ⟨ended, final, -⟩ := Session.listener.run_related
    (fun visit member first second inStep => by
      simpa using inStep.visit (inner visit member)) inStep
  rw [Transcript.notices, Transcript.notices, Transcript.text, Transcript.text, transcribe_result,
    transcribe_result, transcribe_session, transcribe_session, run, otherRun]
  obtain ⟨written, text, otherText⟩ := final.emitters.text
  exact ⟨ended, congrArg (·.notices.reverse) final.course, written, otherText, text⟩

end Treescribe
