import Treescribe.Proofs.Session.Limits
import Treescribe.Proofs.Session.Lines
import Treescribe.Proofs.Session.Situations

/-!
# Runs and the calls in them

Whether a sink takes a text is the only thing that can go wrong while actions are carried out.
A part of a run therefore ends as the calls of the emitter in it do when they are made one
after another, on any sink. `Session.Performs` says so of a part of a run; it is shown of
single actions and joined from there. `Session.OnlyWrites` adds that nothing but the emitter
and the reports changes.
-/

namespace Treescribe

namespace Emitter

/-- Makes calls one after another, up to the first that fails. -/
def performAll (emitter : Emitter) : List Call → Except SinkError Unit × Emitter
  | [] => (.ok (), emitter)
  | call :: rest =>
    match emitter.perform call with
    | (.ok (), next) => next.performAll rest
    | (.error refusal, next) => (.error refusal, next)

/-- Calls that follow others are made by the emitter those leave, unless one of those fails. -/
theorem performAll_append (emitter : Emitter) (first second : List Call) :
    emitter.performAll (first ++ second) =
      match emitter.performAll first with
      | (.ok (), next) => next.performAll second
      | (.error refusal, next) => (.error refusal, next) := by
  induction first generalizing emitter with
  | nil => rfl
  | cons call rest inductionHypothesis =>
    simp only [List.cons_append, performAll]
    rcases emitter.perform call with ⟨_ | ⟨⟩, next⟩
    · rfl
    · exact inductionHypothesis next

/-- A write adds the text as it is laid out, or it fails and adds nothing. The start of a line
is noted in either case. -/
theorem write_cases (emitter : Emitter) (text : String) (newlines : Nat) (terminated : Bool) :
    emitter.write text newlines terminated =
        (.ok (), { emitter with
          atLineStart := emitter.lineStartAfter (emitter.laidOut text newlines terminated)
          sink := { emitter.sink with
            text := emitter.sink.text ++ emitter.laidOut text newlines terminated } }) ∨
      ∃ refusal, emitter.write text newlines terminated =
        (.error refusal, { emitter with
          atLineStart := emitter.lineStartAfter (emitter.laidOut text newlines terminated) }) := by
  simp only [write]
  cases taken : emitter.sink.append (emitter.laidOut text newlines terminated) with
  | ok sink => exact .inl (by rw [Sink.append_eq_ok taken])
  | error refusal => exact .inr ⟨refusal, rfl⟩

/-- A sink without a limit takes the texts of all calls. -/
theorem performAll_of_unlimited {emitter : Emitter} (unlimited : emitter.sink.limit = none)
    (calls : List Call) : emitter.performAll calls = (.ok (), emitter.after calls) := by
  induction calls generalizing emitter with
  | nil => rfl
  | cons call rest inductionHypothesis =>
    have unlimitedNext : (emitter.next call).sink.limit = none := by rw [next_limit, unlimited]
    rw [performAll, perform_of_unlimited unlimited]
    exact inductionHypothesis unlimitedNext

/-- A single write that succeeds adds the text as it is laid out. -/
theorem text_of_write {emitter next : Emitter} {text : String} {newlines : Nat}
    {terminated : Bool}
    (written : emitter.performAll [.write text newlines terminated] = (.ok (), next)) :
    next.sink.text = emitter.sink.text ++ emitter.laidOut text newlines terminated := by
  simp only [performAll, perform] at written
  rcases emitter.write_cases text newlines terminated with taken | ⟨refusal, refused⟩
  · rw [taken] at written
    cases written
    rfl
  · rw [refused] at written
    cases written

/-- Calls that all succeed add their texts as they are laid out, one after another. -/
theorem text_of_performAll {emitter final : Emitter} {calls : List Call}
    (made : emitter.performAll calls = (.ok (), final)) :
    final.sink.text =
      emitter.sink.text ++ String.join (Emission.texts (emitter.emissions calls)) := by
  induction calls generalizing emitter with
  | nil =>
    cases made
    simp [emissions, Emission.texts]
  | cons call rest inductionHypothesis =>
    rw [performAll] at made
    rw [emissions]
    rcases answer : emitter.perform call with ⟨refusal | ⟨⟩, next⟩ <;> rw [answer] at made
    · cases made
    · have behind := inductionHypothesis made
      cases call with
      | write text newlines terminated =>
        have added : emitter.performAll [.write text newlines terminated] = (.ok (), next) := by
          rw [performAll, answer]
          rfl
        simp only [Emission.texts, List.filterMap_cons, Emission.text?, String.join_cons,
          ← String.append_assoc]
        rw [behind, text_of_write added]
        rfl
      | indent | dedent =>
        cases answer
        exact behind

end Emitter

/-- What is picked from a list is picked from its first element, and from the others. -/
theorem filterMap_cons_eq_append {α β : Type} (pick : α → Option β) (first : α) (rest : List α) :
    (first :: rest).filterMap pick = (pick first).toList ++ rest.filterMap pick := by
  rw [List.filterMap_cons]
  cases pick first <;> rfl

namespace Session

/-- A part of a run that ends as calls of an emitter do, and leaves the emitter that they leave.
-/
structure Performs (emitter : Emitter) (calls : List Call) (outcome : Outcome) : Prop where
  result : outcome.1 = (emitter.performAll calls).1.mapError TranscriptError.sink
  emitter : outcome.2.emitter = (emitter.performAll calls).2

namespace Performs

variable {emitter : Emitter} {calls : List Call} {outcome : Outcome}

/-- A part of a run that succeeds has made its calls. -/
theorem of_ok {next : Session} (performs : Performs emitter calls (.ok (), next)) :
    emitter.performAll calls = (.ok (), next.emitter) := by
  obtain ⟨result, left⟩ := performs
  rcases made : emitter.performAll calls with ⟨refusal | ⟨⟩, last⟩ <;> rw [made] at result left
  · cases result
  · rw [left]

/-- A part of a run that succeeds adds the texts of its calls. -/
theorem text_of_ok {next : Session} (performs : Performs emitter calls outcome)
    (ended : outcome = (.ok (), next)) :
    next.emitter.sink.text =
      emitter.sink.text ++ String.join (Emission.texts (emitter.emissions calls)) := by
  subst ended
  exact Emitter.text_of_performAll performs.of_ok

/-- A part of a run fails only because the sink refuses a text. -/
theorem of_error {error : TranscriptError} {final : Session}
    (performs : Performs emitter calls (.error error, final)) :
    ∃ refusal, error = .sink refusal ∧
      emitter.performAll calls = (.error refusal, final.emitter) := by
  obtain ⟨result, left⟩ := performs
  rcases made : emitter.performAll calls with ⟨refusal | ⟨⟩, last⟩ <;> rw [made] at result left
  · cases result
    exact ⟨refusal, rfl, by rw [left]⟩
  · cases result

/-- Parts of a run after each other make the calls of both, unless the first one fails. -/
theorem andThen {later : List Call} {others : Session → Outcome}
    (before : Performs emitter calls outcome)
    (behind : ∀ middle, outcome = (.ok (), middle) →
      Performs middle.emitter later (others middle)) :
    Performs emitter (calls ++ later) (outcome.andThen others) := by
  obtain ⟨result, middle⟩ := outcome
  obtain ⟨ended, left⟩ := before
  dsimp only at ended left
  rcases made : emitter.performAll calls with ⟨refusal | ⟨⟩, last⟩ <;>
    rw [made] at ended left <;> cases ended <;> cases left
  · constructor <;> rw [Emitter.performAll_append, made] <;> rfl
  · obtain ⟨ended, left⟩ := behind middle rfl
    constructor <;> rw [Emitter.performAll_append, made]
    · exact ended
    · exact left

end Performs

/-- An action makes the call that it is, if it is one. -/
theorem act_performs (session : Session) (action : Action) :
    Performs session.emitter action.call?.toList (session.act action) := by
  cases action with
  | emit call =>
    simp only [Action.call?, Option.toList_some, act]
    rcases made : session.emitter.perform call with ⟨refusal | ⟨⟩, next⟩ <;>
      constructor <;> simp only [Emitter.performAll, made] <;> rfl
  | enterScope | leaveScope | declare | register | setAccess | setStatic | openPackage | note =>
    exact ⟨rfl, rfl⟩

/-- Actions make the calls among them. -/
theorem run_performs (session : Session) (actions : List Action) :
    Performs session.emitter (actions.filterMap Action.call?) (session.run actions) := by
  induction actions generalizing session with
  | nil => exact ⟨rfl, rfl⟩
  | cons action rest inductionHypothesis =>
    rw [filterMap_cons_eq_append, run_cons]
    exact (act_performs session action).andThen fun middle _ => inductionHypothesis middle

/-- Actions that ask nothing of the emitter do not fail. -/
theorem run_ne_error {session final : Session} {actions : List Action} {error : TranscriptError}
    (silent : actions.filterMap Action.call? = []) :
    session.run actions ≠ (.error error, final) := by
  intro failed
  have performs := session.run_performs actions
  rw [silent, failed] at performs
  obtain ⟨refusal, -, made⟩ := performs.of_error
  cases made

/-- A visit that has a plan makes the calls in it. -/
theorem visit_performs {session : Session} {visit : Visit} {actions : List Action}
    (planned : session.plan visit = .ok actions) :
    Performs session.emitter (actions.filterMap Action.call?) (session.visit visit) := by
  simp only [Session.visit, planned]
  exact session.run_performs actions

/-- Visits that follow others are made on the session those leave, unless one of those fails. -/
theorem run_visits_append (session : Session) (first second : List Visit) :
    listener.run (first ++ second) session =
      Outcome.andThen (listener.run first session) (listener.run second) := by
  induction first generalizing session with
  | nil => rfl
  | cons visit rest inductionHypothesis =>
    rw [List.cons_append, run_visit_cons, run_visit_cons]
    rcases session.visit visit with ⟨_ | ⟨⟩, next⟩
    · rfl
    · exact inductionHypothesis next

/-- A part of a run that makes calls of the emitter and reports, and changes nothing else. -/
structure OnlyWrites (session : Session) (calls : List Call) (outcome : Outcome) : Prop where
  performs : Performs session.emitter calls outcome
  situation : outcome.2.situation = session.situation
  setting : outcome.2.setting = session.setting

/-- A part of a run in which nothing is done writes nothing. -/
theorem OnlyWrites.refl (session : Session) : OnlyWrites session [] (.ok (), session) :=
  ⟨⟨rfl, rfl⟩, rfl, rfl⟩

/-- Parts of a run that only write do so after each other, too; the later one finds the
situation and the setting as the first one did. -/
theorem OnlyWrites.andThen {session : Session} {calls later : List Call} {outcome : Outcome}
    {others : Session → Outcome} (before : OnlyWrites session calls outcome)
    (behind : ∀ middle, middle.situation = session.situation → middle.setting = session.setting →
      OnlyWrites middle later (others middle)) :
    OnlyWrites session (calls ++ later) (outcome.andThen others) := by
  have goesOn : ∀ middle, outcome = (.ok (), middle) → OnlyWrites middle later (others middle) := by
    rintro middle rfl
    exact behind middle before.situation before.setting
  refine ⟨before.performs.andThen fun middle passed => (goesOn middle passed).performs, ?_, ?_⟩
  · obtain ⟨error | ⟨⟩, middle⟩ := outcome
    · exact before.situation
    · exact (goesOn middle rfl).situation.trans before.situation
  · obtain ⟨error | ⟨⟩, middle⟩ := outcome
    · exact before.setting
    · exact (goesOn middle rfl).setting.trans before.setting

/-- Whether an action makes a call or reports, and does nothing else. -/
def isOutward : Action → Bool
  | .emit _ | .note _ => true
  | _ => false

/-- Actions that make calls and report only write. -/
theorem run_onlyWrites {actions : List Action} (outward : actions.all isOutward = true)
    (session : Session) :
    OnlyWrites session (actions.filterMap Action.call?) (session.run actions) := by
  induction actions generalizing session with
  | nil => exact .refl session
  | cons action rest inductionHypothesis =>
    obtain ⟨here, later⟩ := Bool.and_eq_true_iff.mp (List.all_cons ▸ outward)
    have acted : OnlyWrites session action.call?.toList (session.act action) := by
      refine ⟨session.act_performs action, ?_, session.act_setting action⟩
      rw [act_situation]
      cases action with
      | emit | note => rfl
      | enterScope | leaveScope | declare | register | setAccess | setStatic | openPackage =>
        cases here
    rw [filterMap_cons_eq_append, run_cons]
    exact acted.andThen fun middle _ _ => inductionHypothesis later middle

/-- A visit whose plan is to make calls and to report only writes. -/
theorem visit_onlyWrites {session : Session} {visit : Visit} {actions : List Action}
    (planned : session.plan visit = .ok actions) (outward : actions.all isOutward = true) :
    OnlyWrites session (actions.filterMap Action.call?) (session.visit visit) := by
  simp only [Session.visit, planned]
  exact run_onlyWrites outward session

/-- A walk through a node with nothing to do on the way out only writes if the way in and the
walk through its children do. -/
theorem visits_onlyWrites {session : Session} {node : Node} {calls below : List Call}
    (entered : OnlyWrites session calls (session.visit (.enter (.inner node))))
    (passed : ∀ inner, inner.situation = session.situation → inner.setting = session.setting →
      OnlyWrites inner below (listener.run (node.children.flatMap Node.visits) inner))
    (silent : ∀ last : Session, last.exitNode node = []) :
    OnlyWrites session (calls ++ below) (listener.run node.visits session) := by
  rw [Node.visits_eq, List.cons_append, run_visit_cons]
  refine entered.andThen fun inner situation setting => ?_
  rw [run_visits_append, ← List.append_nil below]
  refine (passed inner situation setting).andThen fun last _ _ => ?_
  have exit : last.plan (.exit (.inner node)) = .ok [] := congrArg Except.ok (silent last)
  rw [run_visit_cons, ← List.append_nil []]
  exact (visit_onlyWrites exit rfl).andThen fun final _ _ => .refl final

end Session

end Treescribe
