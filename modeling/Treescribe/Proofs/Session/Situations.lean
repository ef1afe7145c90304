import Treescribe.Proofs.Outcome
import Treescribe.Proofs.Session.Steps

/-!
# Situations

The situation of a session is all that its plans depend on beside the emitter: the bodies
around, the classes seen, the modifiers in force and whether a namespace is open. A visit
that succeeds changes it in a way that the node visited determines, `Situation.after`;
whatever holds of situations along a walk need only be shown of that.
-/

namespace Treescribe

/-- What a session knows of the place where it stands. -/
structure Situation where
  scopes : Scopes
  classes : List String
  modifiers : Modifiers
  inPackage : Bool
deriving DecidableEq, Repr

namespace Situation

/-- What an action makes of a situation. -/
def act (situation : Situation) : Action → Situation
  | .enterScope frame => { situation with scopes := frame :: situation.scopes }
  | .leaveScope => { situation with scopes := situation.scopes.tail }
  | .declare name => { situation with scopes := situation.scopes.declare name }
  | .register name => { situation with classes := name :: situation.classes }
  | .setAccess access => { situation with modifiers := { situation.modifiers with access } }
  | .setStatic isStatic => { situation with modifiers := { situation.modifiers with isStatic } }
  | .openPackage => { situation with inPackage := true }
  | .emit _ | .note _ => situation

/-- What entering a node makes of a situation. -/
def enter (situation : Situation) (node : Node) : Situation :=
  match node.content with
  | .package _ => { situation with inPackage := true }
  | .classBody name =>
    { situation with
      classes := name :: situation.classes
      scopes := { kind := .classBody, name, emitted := true } :: situation.scopes }
  | .function function =>
    { situation with
      scopes := Session.functionFrame function situation.scopes.enclosingClass?.isSome ::
        situation.scopes }
  | .accessBlock access =>
    { situation with modifiers := { situation.modifiers with access := some access } }
  | .staticBlock => { situation with modifiers := { situation.modifiers with isStatic := true } }
  | .assignment assignment =>
    if Session.isMemberReference assignment.target then situation
    else { situation with scopes := situation.scopes.declare assignment.target }
  | _ => situation

/-- What leaving a node makes of a situation. -/
def exit (situation : Situation) (node : Node) : Situation :=
  match node.content with
  | .classBody _ | .function _ => { situation with scopes := situation.scopes.tail }
  | .accessBlock _ => { situation with modifiers := { situation.modifiers with access := none } }
  | .staticBlock => { situation with modifiers := { situation.modifiers with isStatic := false } }
  | _ => situation

/-- What a visit makes of a situation. -/
def after (situation : Situation) : Visit → Situation
  | .enter (.inner node) => situation.enter node
  | .exit (.inner node) => situation.exit node
  | .enter (.root _) | .exit (.root _) => situation

/-- Notices change no situation. -/
@[simp] theorem foldl_notes (situation : Situation) (notices : List Notice) :
    (notices.map Action.note).foldl act situation = situation := by
  induction notices with
  | nil => rfl
  | cons notice rest inductionHypothesis => exact inductionHypothesis

end Situation

namespace Session

/-- The situation of a session. -/
def situation (session : Session) : Situation :=
  { scopes := session.scopes
    classes := session.classes
    modifiers := session.modifiers
    inPackage := session.inPackage }

/-- Every action changes the situation as it does, whether or not it succeeds. -/
theorem act_situation (session : Session) (action : Action) :
    (session.act action).2.situation = session.situation.act action := by
  cases action with
  | emit call =>
    rw [act_emit]
    rfl
  | enterScope | leaveScope | declare | register | setAccess | setStatic | openPackage | note => rfl

/-- An assignment declares its target in the innermost body, unless it is a member of the
object. -/
theorem foldl_assign (session : Session) {frame : Frame} {outer : Scopes}
    (scopes : session.scopes = frame :: outer) (hasChain : Bool) (assignment : Assignment)
    (tag : Option TypeTag) :
    (session.assign frame hasChain assignment tag).foldl Situation.act session.situation =
      if isMemberReference assignment.target then session.situation
      else
        { session.situation with scopes := session.scopes.declare assignment.target } := by
  have member : (session.declaration frame hasChain assignment tag).isMemberReference =
      isMemberReference assignment.target := rfl
  have line : ∀ (opens : Bool) (first second : String) (situation : Situation),
      situation.act (if opens then Action.opening first else Action.statement second) =
        situation := by
    intro opens first second situation
    cases opens <;> rfl
  have again : frame.isDeclared assignment.target = true →
      session.scopes.declare assignment.target = session.scopes := by
    intro declared
    simp [scopes, Scopes.declare, Frame.declare, declared]
  unfold assign
  simp only [List.foldl_append, List.foldl_cons, List.foldl_nil, member, line]
  cases declared : frame.isDeclared assignment.target with
  | true =>
    simp only [Bool.not_true, Bool.false_eq_true, Bool.false_and, ↓reduceIte, List.foldl_nil,
      again declared]
    exact (ite_self _).symm
  | false =>
    cases isMemberReference assignment.target <;>
      simp [Situation.act, Session.situation]

/-- The actions planned for entering a node change the situation as entering it does. -/
theorem foldl_enterNode {session : Session} {node : Node} {actions : List Action}
    (planned : session.enterNode node = .ok actions) :
    actions.foldl Situation.act session.situation = session.situation.enter node := by
  unfold enterNode at planned
  unfold Situation.enter
  revert planned
  cases node.content with
  | function function =>
    intro planned
    simp only [enterFunction] at planned
    cases enclosing : session.scopes.enclosingClass? with
    | none =>
      simp only [enclosing] at planned
      cases planned
      simp only [situation, enclosing]
      rfl
    | some frame =>
      simp only [enclosing] at planned
      obtain ⟨header, -, opened⟩ := bind_eq_ok_iff.mp planned
      cases opened
      simp only [situation, enclosing]
      rfl
  | assignment assignment =>
    intro planned
    obtain ⟨tag, -, planned⟩ := bind_eq_ok_iff.mp planned
    rcases scopes : session.scopes with _ | ⟨frame, outer⟩
    · rw [scopes] at planned
      cases planned
      have outside : session.situation.scopes.declare assignment.target =
          session.situation.scopes := by
        simp only [situation, scopes, Scopes.declare]
      simp only [outside]
      exact (ite_self _).symm
    · rw [scopes] at planned
      cases planned
      exact foldl_assign session scopes ..
  | package path =>
    rintro ⟨⟩
    unfold enterPackage
    cases opened : session.inPackage with
    | true => simp [situation, opened, Situation.act]
    | false => rfl
  | print values newline =>
    rintro ⟨⟩
    unfold enterPrint
    extract_lets written
    split <;> rfl
  | returnStatement value =>
    rintro ⟨⟩
    unfold enterReturn
    cases value <;> split <;> rfl
  | chain segments =>
    rintro ⟨⟩
    rw [enterChain, List.foldl_append, Situation.foldl_notes]
    rfl
  | importBlock | importPath | classBody | accessBlock | staticBlock | ifBranch | elseIfBranch
  | elseBranch | call =>
    rintro ⟨⟩
    rfl

/-- The actions planned for leaving a node change the situation as leaving it does. -/
theorem foldl_exitNode (session : Session) (node : Node) :
    (session.exitNode node).foldl Situation.act session.situation =
      session.situation.exit node := by
  unfold exitNode Situation.exit
  cases node.content with
  | function function =>
    simp only [exitFunction]
    rcases scopes : session.scopes with _ | ⟨⟨kind, name, declared, emitted⟩, outer⟩
    · simp [situation, scopes]
    · cases emitted <;> rfl
  | package | importBlock | importPath | classBody | accessBlock | staticBlock | assignment | print
  | returnStatement | ifBranch | elseIfBranch | elseBranch | call | chain => rfl

/-- A visit that succeeds changes the situation as the node visited says. -/
theorem situation_of_visit {session next : Session} {visit : Visit}
    (visited : session.visit visit = (.ok (), next)) :
    next.situation = session.situation.after visit := by
  obtain ⟨actions, planned, ran⟩ := visit_eq_ok_iff.mp visited
  rw [run_view act_situation ran]
  rcases visit with ⟨program | node⟩ | ⟨program | node⟩
  · cases planned
    cases session.preamble <;> rfl
  · exact foldl_enterNode planned
  · cases planned
    cases opened : session.inPackage <;> rfl
  · cases planned
    exact session.foldl_exitNode node

end Session

end Treescribe
