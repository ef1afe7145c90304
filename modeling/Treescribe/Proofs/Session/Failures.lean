import Treescribe.Proofs.Session.Agreement
import Treescribe.Proofs.Session.Stepwise
import Treescribe.Proofs.Session.Writes

/-!
# Visits that fail

A visit with an unknown type has no plan, so it changes nothing; the entries that read types are
planned because all types are read before anything is done. A visit that opens a block
writes its header before it does anything else; if the sink refuses the header, then no
indentation, body, class or namespace is left behind, and only the start of the line is taken
to be where it would be behind the header.
-/

namespace Treescribe

/-- The kinds of nodes that have a header, packages and functions included which are entered
where none is written. -/
def Kind.withHeader : List Kind :=
  [.package, .normalClass, .normalFunction, .overrideFunction, .functionSetter,
    .overrideFunctionSetter, .ifBranch, .elseIfBranch, .elseBranch]

/-- A header is followed by a line feed exactly in pretty layout. -/
theorem Emitter.lineStartAfter_header (emitter : Emitter) (header : String) :
    emitter.lineStartAfter (emitter.laidOut (header ++ " \x7b") 1 false) =
      decide (emitter.layout = .pretty) := by
  cases layout : emitter.layout with
  | pretty =>
    rw [lineStartAfter, getLast?_laidOut layout _ Nat.one_pos]
    rfl
  | compact => simp [lineStartAfter, laidOut, layout, List.getLast?_append]

namespace Session

/-- The plan for entering a node of a kind with a header asks nothing of the emitter, or writes
the header first and asks nothing behind it. -/
theorem header_comes_first {session : Session} {node : Node} {actions : List Action}
    (kind : node.kind ∈ Kind.withHeader) (planned : session.enterNode node = .ok actions) :
    actions.filterMap Action.call? = [] ∨
      ∃ header rest, actions = Action.openBlock header ++ rest ∧
        rest.filterMap Action.call? = [] := by
  unfold Node.kind at kind
  unfold enterNode at planned
  cases content : node.content with
  | package path =>
    simp only [content] at planned
    cases planned
    unfold enterPackage
    split
    · exact .inl rfl
    · exact .inr ⟨_, _, rfl, rfl⟩
  | function function =>
    simp only [content, enterFunction] at planned
    split at planned
    · cases planned
      exact .inl rfl
    · obtain ⟨header, -, opened⟩ := bind_eq_ok_iff.mp planned
      cases opened
      exact .inr ⟨header, _, rfl, rfl⟩
  | classBody | ifBranch | elseIfBranch | elseBranch =>
    simp only [content] at planned
    cases planned
    exact .inr ⟨_, _, rfl, rfl⟩
  | accessBlock access =>
    rw [content] at kind
    cases access <;> exact absurd kind (by decide)
  | importBlock | importPath | staticBlock | assignment | print | returnStatement | call | chain =>
    rw [content] at kind
    exact absurd kind (by simp [Content.kind, Kind.withHeader])

/-- A header that the sink refuses leaves nothing but the start of a line, whatever is planned
behind it; what asks nothing of the emitter does not fail. -/
theorem eq_of_header_refused {session final : Session} {header : String} {rest : List Action}
    {error : TranscriptError} (silent : rest.filterMap Action.call? = [])
    (failed : session.run (Action.openBlock header ++ rest) = (.error error, final)) :
    final = { session with emitter :=
      { session.emitter with atLineStart := session.layout = .pretty } } := by
  simp only [Action.openBlock, List.cons_append, List.nil_append, run, act, Emitter.perform]
    at failed
  rcases session.emitter.write_cases (header ++ " \x7b") 1 false with taken | ⟨refusal, refused⟩
  · rw [taken] at failed
    exact absurd failed (run_ne_error silent)
  · rw [refused, Emitter.lineStartAfter_header] at failed
    exact (Prod.mk.inj failed).2.symm

/-- A visit that finds an unknown type leaves the session as it was. This holds of functions and
assignments entered step by step, with each type read where it is needed. Entering a node of a kind
with a header does all or nothing: if the sink refuses the header, the session is as it was but
for the start of a line, and otherwise the situation is that behind the header, and the
emitter is one level deeper where a header was written. This is so in every session, whatever
visits, failed or not, have led to it. -/
theorem failed_visits_keep (session : Session) (visit : Visit) :
    (∀ unknown final, session.visit visit = (.error (.unknownType unknown), final) →
      final = session) ∧
    (∀ node, visit = .enter (.inner node) →
      (∀ function, node.content = .function function →
        session.visit visit = (Stepwise.enterFunction function).run.run session) ∧
      ∀ assignment, node.content = .assignment assignment →
        session.visit visit =
          (Stepwise.enterAssignment node.hasChain assignment).run.run session) ∧
    ∀ node, visit = .enter (.inner node) → node.kind ∈ Kind.withHeader →
      (∀ refusal final, session.visit visit = (.error (.sink refusal), final) →
        final = { session with emitter :=
          { session.emitter with atLineStart := session.layout = .pretty } }) ∧
      ∀ next, session.visit visit = (.ok (), next) →
        next.situation = session.situation.enter node ∧
        next.emitter.depth =
          if session.opensBlock node then session.emitter.depth + 1 else session.emitter.depth := by
  refine ⟨fun unknown final failed => ?_, ?_, ?_⟩
  · cases planned : session.plan visit with
    | error _ =>
      simp only [Session.visit, planned] at failed
      exact (Prod.mk.inj failed).2.symm
    | ok actions =>
      have performs := visit_performs planned
      rw [failed] at performs
      obtain ⟨refusal, different, -⟩ := performs.of_error
      cases different
  · rintro node rfl
    exact ⟨fun function => session.visit_function, fun assignment => session.visit_assignment⟩
  · rintro node rfl kind
    refine ⟨fun refusal final failed => ?_,
      fun next entered => ⟨situation_of_visit entered, depth_enter entered⟩⟩
    cases planned : session.plan (.enter (.inner node)) with
    | error _ =>
      simp only [Session.visit, planned] at failed
      cases failed
    | ok actions =>
      simp only [Session.visit, planned] at failed
      rcases header_comes_first kind planned with silent | ⟨header, rest, rfl, silent⟩
      · exact absurd failed (run_ne_error silent)
      · exact eq_of_header_refused silent failed

/-- A session in a class whose sink has little room left. -/
def cramped : Session :=
  { preamble := false
    emitter :=
      { layout := .compact, depth := 1, sink := { limit := some 20, text := "class A \x7b" } }
    scopes := [{ kind := .classBody, name := "A", declared := ["x"], emitted := true }]
    classes := ["A"]
    modifiers := { isStatic := true } }

/-- Neither a function of an unknown type nor one whose header does not fit leaves anything in
that session but, for the latter, the start of a line. -/
theorem failed_visits_keep_cramped :
    cramped.visit (.enter (.inner ⟨1, .function ⟨"f", [], true, some "T"⟩, []⟩)) =
        (.error (.unknownType ⟨"T"⟩), cramped) ∧
      cramped.visit (.enter (.inner ⟨2, .function ⟨"f", [⟨"x", none, none⟩], false, none⟩, []⟩)) =
        (.error (.sink .full),
          { cramped with emitter := { cramped.emitter with atLineStart := false } }) := by
  constructor
  · have failed : (cramped.visit (.enter (.inner ⟨1, .function ⟨"f", [], true, some "T"⟩, []⟩))).1 =
        .error (.unknownType ⟨"T"⟩) := by decide +kernel
    exact Prod.ext failed ((cramped.failed_visits_keep _).1 _ _ (Prod.ext failed rfl))
  · have failed : (cramped.visit
        (.enter (.inner ⟨2, .function ⟨"f", [⟨"x", none, none⟩], false, none⟩, []⟩))).1 =
        .error (.sink .full) := by decide +kernel
    exact Prod.ext failed
      (((cramped.failed_visits_keep _).2.2 _ rfl (by decide)).1 _ _ (Prod.ext failed rfl))

end Session

end Treescribe
