import Treescribe.Proofs.Session.Steps

/-!
# Calls of the emitter

What a transcription asks of its emitter, call by call: `Program.emissions` lists every
call that is made, the last one included if it fails, with the emitter before it. Actions
reach the sink by these calls alone. A sink without a limit refuses nothing, so there a
visit fails only for want of a plan, and a plan makes all the calls it holds.
-/

namespace Treescribe

/-- A call of an emitter, with the emitter before it. -/
structure Emission where
  emitter : Emitter
  call : Call

/-- The call of the emitter that an action is. -/
def Action.call? : Action → Option Call
  | .emit call => some call
  | _ => none

/-- A sink that takes a text holds it behind what it held before. -/
theorem Sink.append_eq_ok {sink grown : Sink} {text : String}
    (taken : sink.append text = .ok grown) : grown = { sink with text := sink.text ++ text } := by
  unfold Sink.append at taken
  cases limit : sink.limit with
  | none =>
    simp only [limit] at taken
    exact (Except.ok.inj taken).symm
  | some bound =>
    simp only [limit] at taken
    split at taken
    · exact (Except.ok.inj taken).symm
    · cases taken

namespace Emitter

/-- Calls made one after another, up to the first that fails. -/
def emissions (emitter : Emitter) : List Call → List Emission
  | [] => []
  | call :: rest =>
    ⟨emitter, call⟩ ::
      match emitter.perform call with
      | (.ok (), next) => next.emissions rest
      | (.error _, _) => []

/-- The emitter behind a call, whether or not the call succeeds. -/
def next (emitter : Emitter) (call : Call) : Emitter :=
  (emitter.perform call).2

/-- The emitter behind calls. -/
def after (emitter : Emitter) (calls : List Call) : Emitter :=
  calls.foldl next emitter

/-- The emitter behind a write: the start of a line is noted, and the sink holds the text
if it took it. -/
theorem next_write (emitter : Emitter) (text : String) (newlines : Nat) (terminated : Bool) :
    emitter.next (.write text newlines terminated) =
      { emitter with
        atLineStart := emitter.lineStartAfter (emitter.laidOut text newlines terminated)
        sink := (emitter.sink.append (emitter.laidOut text newlines terminated)).toOption.getD
          emitter.sink } := by
  simp only [next, perform, write]
  cases emitter.sink.append (emitter.laidOut text newlines terminated) <;> rfl

/-- A sink without a limit holds a text that is written as it is laid out. -/
theorem next_write_of_unlimited {emitter : Emitter} (unlimited : emitter.sink.limit = none)
    (text : String) (newlines : Nat) (terminated : Bool) :
    emitter.next (.write text newlines terminated) =
      { emitter with
        atLineStart := emitter.lineStartAfter (emitter.laidOut text newlines terminated)
        sink := { emitter.sink with
          text := emitter.sink.text ++ emitter.laidOut text newlines terminated } } := by
  have taken : ∀ more, emitter.sink.append more =
      .ok { emitter.sink with text := emitter.sink.text ++ more } := by
    intro more
    simp [Sink.append, unlimited]
  rw [next_write, taken]
  rfl

/-- No call changes how much a sink takes. -/
@[simp] theorem next_limit (emitter : Emitter) (call : Call) :
    (emitter.next call).sink.limit = emitter.sink.limit := by
  cases call with
  | write text newlines terminated =>
    rw [next_write]
    cases taken : emitter.sink.append (emitter.laidOut text newlines terminated) with
    | error refusal => rfl
    | ok sink =>
      have grown := Sink.append_eq_ok taken
      rw [grown]
      rfl
  | indent | dedent => rfl

/-- No call changes the layout. -/
@[simp] theorem next_layout (emitter : Emitter) (call : Call) :
    (emitter.next call).layout = emitter.layout := by
  cases call with
  | write text newlines terminated => rw [next_write]
  | indent | dedent => rfl

/-- No calls change how much a sink takes. -/
@[simp] theorem after_limit (emitter : Emitter) (calls : List Call) :
    (emitter.after calls).sink.limit = emitter.sink.limit := by
  induction calls generalizing emitter with
  | nil => rfl
  | cons call rest inductionHypothesis => exact (inductionHypothesis _).trans (next_limit ..)

/-- A sink without a limit takes every text. -/
theorem perform_of_unlimited {emitter : Emitter} (unlimited : emitter.sink.limit = none)
    (call : Call) : emitter.perform call = (.ok (), emitter.next call) := by
  cases call with
  | write text newlines terminated => simp [next, perform, write, Sink.append, unlimited]
  | indent | dedent => rfl

/-- What every call keeps where the sink has no limit is kept by calls one after another. -/
theorem kept_after {kept : Emitter → Prop}
    (step : ∀ {emitter : Emitter}, emitter.sink.limit = none → kept emitter →
      ∀ call, kept (emitter.next call))
    {emitter : Emitter} (unlimited : emitter.sink.limit = none) (before : kept emitter)
    (calls : List Call) : kept (emitter.after calls) := by
  induction calls generalizing emitter with
  | nil => exact before
  | cons call rest inductionHypothesis =>
    exact inductionHypothesis (by rw [next_limit, unlimited]) (step unlimited before call)

/-- A single call is made, whether or not it succeeds. -/
theorem map_call_emissions_singleton (emitter : Emitter) (call : Call) :
    (emitter.emissions [call]).map Emission.call = [call] := by
  rw [emissions]
  split <;> rfl

/-- Calls of an emitter whose sink has no limit are all made. -/
theorem map_call_emissions {emitter : Emitter} (unlimited : emitter.sink.limit = none)
    (calls : List Call) : (emitter.emissions calls).map Emission.call = calls := by
  induction calls generalizing emitter with
  | nil => rfl
  | cons call rest inductionHypothesis =>
    have unlimitedNext : (emitter.next call).sink.limit = none := by rw [next_limit, unlimited]
    rw [emissions, perform_of_unlimited unlimited, List.map_cons]
    exact congrArg (call :: ·) (inductionHypothesis unlimitedNext)

end Emitter

namespace Session

/-- The calls of the emitter that actions make when they are carried out, up to the first
that fails. -/
def emissionsOf (session : Session) : List Action → List Emission
  | [] => []
  | action :: rest =>
    (action.call?.map (Emission.mk session.emitter)).toList ++
      match session.act action with
      | (.ok (), next) => next.emissionsOf rest
      | (.error _, _) => []

/-- The calls of the emitter that a visit makes. -/
def emissions (session : Session) (visit : Visit) : List Emission :=
  match session.plan visit with
  | .ok actions => session.emissionsOf actions
  | .error _ => []

/-- Actions make the calls among them. -/
theorem emissionsOf_eq (session : Session) (actions : List Action) :
    session.emissionsOf actions = session.emitter.emissions (actions.filterMap Action.call?) := by
  induction actions generalizing session with
  | nil => rfl
  | cons action rest inductionHypothesis =>
    cases action with
    | emit call =>
      rcases answer : session.emitter.perform call with ⟨_ | ⟨⟩, next⟩
      · simp [emissionsOf, Emitter.emissions, Action.call?, act, answer]
      · simp [emissionsOf, Emitter.emissions, Action.call?, act, answer, inductionHypothesis]
    | enterScope | leaveScope | declare | register | setAccess | setStatic | openPackage | note =>
      exact inductionHypothesis _

/-- A visit whose plan has a single call makes it, whether or not it succeeds. -/
theorem map_call_emissions_of_single {session : Session} {visit : Visit} {actions : List Action}
    {call : Call} (planned : session.plan visit = .ok actions)
    (single : actions.filterMap Action.call? = [call]) :
    (session.emissions visit).map Emission.call = [call] := by
  simp only [emissions, planned]
  rw [emissionsOf_eq, single, Emitter.map_call_emissions_singleton]

/-- An action changes the emitter by the call that it is, if it is one. -/
theorem act_emitter (session : Session) (action : Action) :
    (session.act action).2.emitter = action.call?.elim session.emitter session.emitter.next := by
  cases action with
  | emit call =>
    rw [act_emit]
    rfl
  | enterScope | leaveScope | declare | register | setAccess | setStatic | openPackage | note =>
    rfl

/-- What a session is given at its start: its options, and how much the sink takes. -/
def setting (session : Session) : Options × Option Nat :=
  ({ layout := session.layout, preamble := session.preamble }, session.emitter.sink.limit)

/-- No action changes what a session was given. -/
theorem act_setting (session : Session) (action : Action) :
    (session.act action).2.setting = session.setting := by
  cases action with
  | emit call =>
    have kept : (session.emitter.next call).layout = session.emitter.layout ∧
        (session.emitter.next call).sink.limit = session.emitter.sink.limit := by simp
    rw [act_emit, setting, layout]
    unfold Emitter.next at kept
    rw [kept.1, kept.2]
    rfl
  | enterScope | leaveScope | declare | register | setAccess | setStatic | openPackage | note =>
    rfl

/-- No visit changes what a session was given. -/
theorem visit_setting (session : Session) (visit : Visit) :
    (session.visit visit).2.setting = session.setting := by
  have run_setting : ∀ (actions : List Action) (session : Session),
      (session.run actions).2.setting = session.setting := by
    intro actions
    induction actions with
    | nil => exact fun _ => rfl
    | cons action rest inductionHypothesis =>
      intro session
      have stepped := session.act_setting action
      rw [run]
      rcases answer : session.act action with ⟨_ | ⟨⟩, next⟩ <;> rw [answer] at stepped
      · exact stepped
      · exact (inductionHypothesis next).trans stepped
  unfold Session.visit
  cases session.plan visit with
  | error unknown => rfl
  | ok actions => exact run_setting actions session

/-- Where the sink has no limit, every action succeeds. -/
theorem act_of_unlimited {session : Session} (unlimited : session.emitter.sink.limit = none)
    (action : Action) : session.act action = (.ok (), (session.act action).2) := by
  cases action with
  | emit call => simp [act, Emitter.perform_of_unlimited unlimited]
  | enterScope | leaveScope | declare | register | setAccess | setStatic | openPackage | note =>
    rfl

/-- Where the sink has no limit, actions are carried out to the end, and the emitter has
then made their calls. -/
theorem run_of_unlimited {session : Session} (unlimited : session.emitter.sink.limit = none)
    (actions : List Action) :
    ∃ final, session.run actions = (.ok (), final) ∧
      final.emitter = session.emitter.after (actions.filterMap Action.call?) := by
  induction actions generalizing session with
  | nil => exact ⟨session, rfl, rfl⟩
  | cons action rest inductionHypothesis =>
    have stepped := session.act_emitter action
    have unlimitedNext : (session.act action).2.emitter.sink.limit = none := by
      rw [stepped]
      cases action.call? <;> simp [unlimited]
    obtain ⟨final, ran, reached⟩ := inductionHypothesis unlimitedNext
    refine ⟨final, ?_, ?_⟩
    · rw [run, act_of_unlimited unlimited]
      exact ran
    · rw [reached, stepped, List.filterMap_cons]
      cases action.call? <;> rfl

/-- The calls of the emitter in the plan of a visit. -/
def plannedCalls (session : Session) (visit : Visit) : List Call :=
  match session.plan visit with
  | .ok actions => actions.filterMap Action.call?
  | .error _ => []

/-- Where the sink has no limit, a visit makes all the calls of its plan. -/
theorem map_call_emissions {session : Session} (unlimited : session.emitter.sink.limit = none)
    (visit : Visit) : (session.emissions visit).map Emission.call = session.plannedCalls visit := by
  unfold emissions plannedCalls
  cases session.plan visit with
  | error unknown => rfl
  | ok actions =>
    simp only [emissionsOf_eq]
    exact Emitter.map_call_emissions unlimited _

/-- Where the sink has no limit, a visit that succeeds changes the emitter by the calls of its
plan, and makes them all. -/
theorem emitter_of_visit {session next : Session} (unlimited : session.emitter.sink.limit = none)
    {visit : Visit} (visited : session.visit visit = (.ok (), next)) :
    next.emitter = session.emitter.after (session.plannedCalls visit) ∧
      session.emissions visit = session.emitter.emissions (session.plannedCalls visit) := by
  obtain ⟨actions, planned, ran⟩ := visit_eq_ok_iff.mp visited
  obtain ⟨final, reached, after⟩ := run_of_unlimited unlimited actions
  rw [ran] at reached
  cases reached
  simp only [emissions, plannedCalls, planned, emissionsOf_eq, and_true]
  exact after

/-- What every call keeps where the sink has no limit is kept by visits that succeed. -/
theorem kept_run {kept : Emitter → Prop}
    (step : ∀ {emitter : Emitter}, emitter.sink.limit = none → kept emitter →
      ∀ call, kept (emitter.next call))
    {session final : Session} {visits : List Visit}
    (unlimited : session.emitter.sink.limit = none) (before : kept session.emitter)
    (ran : listener.run visits session = (.ok (), final)) : kept final.emitter := by
  induction visits generalizing session with
  | nil =>
    cases ran
    exact before
  | cons visit rest inductionHypothesis =>
    obtain ⟨next, visited, went⟩ := listener.run_cons_ok_iff.mp ran
    rw [call_listener] at visited
    have reached := (emitter_of_visit unlimited visited).1
    refine inductionHypothesis ?_ ?_ went
    · rw [reached, Emitter.after_limit, unlimited]
    · rw [reached]
      exact Emitter.kept_after step unlimited before _

/-- Where the sink has no limit, a visit fails exactly if it has no plan. -/
theorem failure?_visit {session : Session} (unlimited : session.emitter.sink.limit = none)
    (visit : Visit) :
    failure? (session.visit visit).1 =
      (failure? (session.plan visit)).map TranscriptError.unknownType := by
  unfold Session.visit
  cases session.plan visit with
  | error unknown => rfl
  | ok actions =>
    obtain ⟨final, ran, -⟩ := run_of_unlimited unlimited actions
    simp only [ran]
    rfl

/-- The calls of the emitter that visits make one after another, up to the first that
fails. -/
def emissionsAlong (session : Session) (visits : List Visit) : List Emission :=
  (listener.trace visits session).flatMap fun called => called.2.emissions called.1

/-- Visits that follow others make their calls behind those. -/
theorem emissionsAlong_append {session middle : Session} {first second : List Visit}
    (passed : listener.run first session = (.ok (), middle)) :
    session.emissionsAlong (first ++ second) =
      session.emissionsAlong first ++ middle.emissionsAlong second := by
  unfold emissionsAlong
  rw [listener.trace_append passed, List.flatMap_append]

/-- A visit before others makes its calls before those. -/
theorem emissionsAlong_cons {session next : Session} {visit : Visit} {rest : List Visit}
    (visited : session.visit visit = (.ok (), next)) :
    session.emissionsAlong (visit :: rest) =
      session.emissions visit ++ next.emissionsAlong rest := by
  simp [emissionsAlong, Listener.trace, visited]

/-- The calls of a walk through a subtree are those on the way into its root, below it, and
on the way out. -/
theorem emissionsAlong_visits {session inner last final : Session} {node : Node}
    (entered : session.visit (.enter (.inner node)) = (.ok (), inner))
    (passed : listener.run (node.children.flatMap Node.visits) inner = (.ok (), last))
    (left : last.visit (.exit (.inner node)) = (.ok (), final)) :
    session.emissionsAlong node.visits =
      session.emissions (.enter (.inner node)) ++
        inner.emissionsAlong (node.children.flatMap Node.visits) ++
          last.emissions (.exit (.inner node)) := by
  rw [Node.visits_eq, List.cons_append, emissionsAlong_cons entered, emissionsAlong_append passed,
    emissionsAlong_cons left]
  simp [emissionsAlong, Listener.trace]

end Session

/-- The calls of the emitter that a transcription makes, in order. -/
def Program.emissions (program : Program) (options : Options) (sink : Sink) : List Emission :=
  (Session.listener.calls program (Session.start options sink)).flatMap
    fun called => called.2.emissions called.1

end Treescribe
