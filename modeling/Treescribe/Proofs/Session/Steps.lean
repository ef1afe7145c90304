import Treescribe.Proofs.Walk.Ancestors
import Treescribe.Transcript

/-!
# Steps of a session

A session is a listener, and a transcription is its walk. A visit that succeeds carries
out its plan to the end; what a view of the session makes of single actions, it makes of
the plan as a whole.
-/

namespace Treescribe

namespace Session

/-- Sessions as listeners: what is done at a visit is the plan of that visit. -/
def listener : Listener Session TranscriptError where
  enter _ subject session := session.visit (.enter subject)
  exit _ subject session := session.visit (.exit subject)

/-- The hooks of a session carry out visits. -/
@[simp] theorem call_listener (visit : Visit) (session : Session) :
    listener.call visit session = session.visit visit := by
  cases visit <;> rfl

/-- The hook of a walk is that of the listener. -/
theorem hook_eq_listener_hook : Session.hook = listener.hook := by
  funext visit
  cases visit <;> rfl

/-- A walk through a subtree calls the hooks of its visits one after another. -/
theorem run_walk (node : Node) (session : Session) :
    (node.walk Session.hook).run.run session = listener.run node.visits session := by
  rw [hook_eq_listener_hook, Node.walk_eq_forM, listener.forM_hook]

/-- A visit succeeds exactly when it has a plan which is carried out to the end. -/
theorem visit_eq_ok_iff {session next : Session} {visit : Visit} :
    session.visit visit = (.ok (), next) ↔
      ∃ actions, session.plan visit = .ok actions ∧ session.run actions = (.ok (), next) := by
  unfold Session.visit
  cases session.plan visit <;> simp

/-- A call of the emitter changes nothing but the emitter, whether or not it succeeds. -/
theorem act_emit (session : Session) (call : Call) :
    (session.act (.emit call)).2 =
      { session with emitter := (session.emitter.perform call).2 } := by
  rcases answer : session.emitter.perform call with ⟨_ | ⟨⟩, emitter⟩ <;> simp [act, answer]

/-- If every action, whether it succeeds or not, changes a view of the session in a way of
its own, actions carried out to the end change it one after another. -/
theorem run_view {β : Type} {view : Session → β} {effect : β → Action → β}
    (step : ∀ session action, view (session.act action).2 = effect (view session) action)
    {session next : Session} {actions : List Action}
    (ran : session.run actions = (.ok (), next)) :
    view next = actions.foldl effect (view session) := by
  induction actions generalizing session with
  | nil =>
    cases ran
    rfl
  | cons action rest inductionHypothesis =>
    have stepped := step session action
    rw [run] at ran
    rcases answer : session.act action with ⟨_ | ⟨⟩, middle⟩
    · simp [answer] at ran
    · rw [answer] at ran stepped
      rw [List.foldl_cons, ← stepped]
      exact inductionHypothesis ran

end Session

/-- A transcription is the walk of a session from its start. -/
theorem Program.transcribe_eq_walk (program : Program) (options : Options) (sink : Sink) :
    ((program.transcribe options sink).result, (program.transcribe options sink).session) =
      Session.listener.walk program (Session.start options sink) := by
  unfold Program.transcribe Listener.walk
  rw [Session.hook_eq_listener_hook]
  rfl

/-- A transcription ends as the run through the visits of its program. -/
theorem Program.transcribe_result (program : Program) (options : Options) (sink : Sink) :
    (program.transcribe options sink).result =
      (Session.listener.run program.visits (Session.start options sink)).1 := by
  have walked := program.transcribe_eq_walk options sink
  rw [Listener.walk_eq_run] at walked
  exact congrArg Prod.fst walked

/-- A transcription leaves the session that the run through the visits of its program
leaves. -/
theorem Program.transcribe_session (program : Program) (options : Options) (sink : Sink) :
    (program.transcribe options sink).session =
      (Session.listener.run program.visits (Session.start options sink)).2 := by
  have walked := program.transcribe_eq_walk options sink
  rw [Listener.walk_eq_run] at walked
  exact congrArg Prod.snd walked

/-- In a transcription that succeeds, every visit is made. -/
theorem Program.exists_call {program : Program} {options : Options} {sink : Sink}
    (succeeds : (program.transcribe options sink).result = .ok ()) {number : Nat} {visit : Visit}
    (visited : program.visits[number]? = some visit) :
    ∃ session, (Session.listener.calls program (Session.start options sink))[number]? =
      some (visit, session) := by
  rw [transcribe_result] at succeeds
  rw [Listener.calls_eq_trace]
  rcases Session.listener.run_cases program.visits (Session.start options sink) with
    ⟨final, -, called⟩ | ⟨_, _, _, _, error, final, -, -, -, failed, -⟩
  · rw [← called, List.getElem?_map] at visited
    obtain ⟨⟨_, session⟩, found, rfl⟩ := Option.map_eq_some_iff.mp visited
    exact ⟨session, found⟩
  · rw [failed] at succeeds
    cases succeeds

end Treescribe
