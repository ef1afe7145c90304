import Treescribe.Proofs.Session.Scopes

/-!
# Entries that read types, step by step

Functions and assignments are entered in steps of two sorts: types are read, each where it is
needed, and actions are carried out. A type that is unknown ends the entry with what has been done
until then. As it is, every type is read before the first action is carried out, so that the steps
amount to a plan: `Session.visit_function` and `Session.visit_assignment`.
-/

namespace Treescribe

namespace Stepwise

/-- Carries out an action. -/
def perform (action : Action) : Transcribing Unit :=
  ExceptT.mk fun session => session.act action

/-- Goes on with what was read, unless a type in it is unknown. -/
def check {α : Type} (reading : Except UnknownType α) : Transcribing α :=
  ExceptT.mk fun session => (reading.mapError .unknownType, session)

/-- Enters a function: in a class its return type is read for the keywords, then the types of its
parameters, one after another, and then the header is written. -/
def enterFunction (function : Function) : Transcribing Unit := do
  let session ← get
  match session.scopes.enclosingClass? with
  | none =>
    perform (.note (.functionOutsideClass function.name))
    perform (.enterScope (Session.functionFrame function false))
  | some enclosing =>
    let typeKeywords ← check (function.typeKeywords enclosing.name)
    let keywords := session.modifiers.keywords (some .publicAccess) ++ typeKeywords
    let parameters ← function.parameters.mapM fun parameter =>
      check (parameter.code session.layout)
    perform (.emit (.write (function.headerText keywords parameters ++ " \x7b") 1 false))
    perform (.emit .indent)
    perform (.enterScope (Session.functionFrame function true))

/-- Declares the target of an assignment where it is new, and returns what is written before it. -/
def declareTarget (frame : Frame) (declaration : Declaration) (target : String) :
    Transcribing (List String) := do
  let session ← get
  if frame.isDeclared target then
    return []
  else
    declaration.notices.forM fun notice => perform (.note notice)
    unless declaration.isMemberReference do
      perform (.declare target)
    return session.declarationTokens declaration

/-- Writes the line of an assignment, up to its value if a chain writes that. -/
def writeAssignment (hasChain : Bool) (value : Option String) (tokens : List String) :
    Transcribing Unit :=
  if hasChain then perform (.opening (" ".intercalate tokens ++ " = "))
  else perform (.statement (" ".intercalate (tokens ++ value.elim [] fun value => ["=", value])))

/-- Enters an assignment: its type is read even where it is not written, then a new target is
declared, and then the line is written. -/
def enterAssignment (hasChain : Bool) (assignment : Assignment) : Transcribing Unit := do
  let tag ← check (TypeTag.readOptional assignment.type)
  let session ← get
  match session.scopes with
  | [] => perform (.note (.assignmentOutsideScope assignment.target))
  | frame :: _ =>
    let declaration := session.declaration frame hasChain assignment tag
    let value := assignment.value.map
      (Value.render session.layout declaration.shape (tag == some .float))
    let before ← declareTarget frame declaration assignment.target
    writeAssignment hasChain value (before ++ [Session.targetCode assignment.target])

variable {α β : Type}

/-- What follows a reading takes place on the same session, if it takes place. -/
theorem run_check_bind (reading : Except UnknownType α) (next : α → Transcribing β)
    (session : Session) :
    (check reading >>= next).run.run session =
      match reading with
      | .ok value => (next value).run.run session
      | .error unknown => (.error (.unknownType unknown), session) := by
  cases reading <;> rfl

/-- Readings one after another are one reading. -/
theorem mapM_check (read : α → Except UnknownType β) (inputs : List α) :
    inputs.mapM (fun input => check (read input)) = check (inputs.mapM read) := by
  induction inputs with
  | nil => rfl
  | cons input rest inductionHypothesis =>
    rw [List.mapM_cons, List.mapM_cons, inductionHypothesis]
    cases read input with
    | error unknown => rfl
    | ok value => cases rest.mapM read <;> rfl

/-- A step on the session as it is. -/
theorem run_get_bind (next : Session → Transcribing α) (session : Session) :
    (get >>= next).run.run session = (next session).run.run session :=
  rfl

/-- An action is carried out before the others of a list. -/
theorem run_perform_bind (action : Action) {next : Transcribing Unit} {others : List Action}
    (behind : ∀ session, next.run.run session = session.run others) (session : Session) :
    (perform action >>= fun _ => next).run.run session = session.run (action :: others) := by
  have opened : (perform action >>= fun _ => next).run.run session =
      ExceptT.bindCont (fun _ => next) (session.act action).1 (session.act action).2 := rfl
  rw [opened, Session.run]
  rcases session.act action with ⟨_ | ⟨⟩, after⟩
  · rfl
  · exact behind after

/-- An action alone is carried out. -/
theorem run_perform (action : Action) (session : Session) :
    (perform action).run.run session = session.run [action] := by
  have opened : (perform action).run.run session = session.act action := rfl
  rw [opened, Session.run]
  rcases session.act action with ⟨_ | ⟨⟩, after⟩ <;> rfl

/-- Notices are reported before what follows. -/
theorem run_notes_bind (notices : List Notice) {next : Transcribing Unit} {others : List Action}
    (behind : ∀ session, next.run.run session = session.run others) (session : Session) :
    ((notices.forM fun notice => perform (.note notice)) >>= fun _ => next).run.run session =
      session.run (notices.map .note ++ others) := by
  induction notices generalizing session with
  | nil => exact behind session
  | cons notice rest inductionHypothesis =>
    change ((perform (.note notice) >>= fun _ =>
      rest.forM fun notice => perform (.note notice)) >>= fun _ => next).run.run session = _
    rw [bind_assoc]
    exact run_perform_bind _ inductionHypothesis session

/-- The line of an assignment is one action. -/
theorem run_writeAssignment (hasChain : Bool) (value : Option String) (tokens : List String)
    (session : Session) :
    (writeAssignment hasChain value tokens).run.run session =
      session.run [if hasChain then .opening (" ".intercalate tokens ++ " = ")
        else .statement (" ".intercalate (tokens ++ value.elim [] fun value => ["=", value]))] := by
  unfold writeAssignment
  split <;> exact run_perform _ session

/-- A target is declared before what follows, which is told what stands before the target. -/
theorem run_declareTarget_bind (frame : Frame) (declaration : Declaration) (target : String)
    {next : List String → Transcribing Unit} {line : List String → Action}
    (behind : ∀ tokens session, (next tokens).run.run session = session.run [line tokens])
    (session : Session) :
    (declareTarget frame declaration target >>= next).run.run session =
      session.run (if frame.isDeclared target then [line []]
        else declaration.notices.map .note ++
          ((if declaration.isMemberReference then [] else [.declare target]) ++
            [line (session.declarationTokens declaration)])) := by
  rw [declareTarget, bind_assoc, run_get_bind]
  split
  · rw [pure_bind]
    exact behind [] session
  · rw [bind_assoc]
    refine run_notes_bind _ (fun reported => ?_) session
    split
    · rw [pure_bind]
      exact behind _ reported
    · rw [bind_assoc]
      simp only [pure_bind]
      exact run_perform_bind _ (behind _) reported

end Stepwise

namespace Session

open Treescribe.Stepwise

/-- A function is entered by its steps: all of its types are read before the first action. -/
theorem visit_function (session : Session) {node : Node} {function : Function}
    (content : node.content = .function function) :
    session.visit (.enter (.inner node)) = (Stepwise.enterFunction function).run.run session := by
  rw [Stepwise.enterFunction, run_get_bind]
  simp only [visit, plan, enterNode, content, Session.enterFunction]
  cases session.scopes.enclosingClass? with
  | none => exact (run_perform_bind _ (run_perform _) session).symm
  | some enclosing =>
    dsimp only
    rw [run_check_bind, Function.header]
    cases function.typeKeywords enclosing.name with
    | error unknown => rfl
    | ok typeKeywords =>
      dsimp only
      rw [mapM_check, run_check_bind]
      cases function.parameters.mapM (Parameter.code session.layout) with
      | error unknown => rfl
      | ok parameters =>
        exact (run_perform_bind _ (run_perform_bind _ (run_perform _)) session).symm

/-- An assignment is entered by its steps: its type is read before its name is declared. -/
theorem visit_assignment (session : Session) {node : Node} {assignment : Assignment}
    (content : node.content = .assignment assignment) :
    session.visit (.enter (.inner node)) =
      (Stepwise.enterAssignment node.hasChain assignment).run.run session := by
  rw [Stepwise.enterAssignment, run_check_bind]
  simp only [visit, plan, enterNode, content, Session.enterAssignment]
  cases TypeTag.readOptional assignment.type with
  | error unknown => rfl
  | ok tag =>
    dsimp only
    rw [run_get_bind]
    rcases session.scopes with _ | ⟨frame, outer⟩
    · exact (run_perform _ session).symm
    · refine Eq.trans ?_ (run_declareTarget_bind frame _ _
        (fun before => run_writeAssignment _ _ (before ++ _)) session).symm
      -- Both sides are the same list of actions.
      refine congrArg session.run ?_
      unfold assign
      cases frame.isDeclared assignment.target <;>
        cases member : (session.declaration frame node.hasChain assignment tag).isMemberReference <;>
          simp [member]

end Session

end Treescribe
