import Treescribe.Proofs.Session.Agreement
import Treescribe.Proofs.Session.Declarations
import Treescribe.Proofs.Value.Chains

/-!
# Known classes

A class is known from its entry on, and to the end of the walk. So the classes known at the
entry of a node are those before it in preorder, and they decide which segments of a chain
construct objects. What stands behind a node in preorder has no part in what its entry plans,
its own children aside, and changes the text at most by the indentation: a chain behind the
node makes an assignment or a return above it leave its line open.
-/

namespace Treescribe

/-- The name of a class. -/
def Subject.className? : Subject → Option String
  | .root _ => none
  | .inner node => node.className?

/-- A text without the spaces in front of it. -/
def Text.unindented (text : String) : List Char :=
  text.toList.dropWhile (· == ' ')

/-- Entering a class makes it known, and nothing else changes what is known. -/
theorem Situation.classes_after (situation : Situation) (visit : Visit) :
    (situation.after visit).classes =
      (visit.entered?.bind Subject.className?).toList ++ situation.classes := by
  rcases visit with ⟨program | node⟩ | ⟨program | node⟩
  · rfl
  · simp only [after, enter, Visit.entered?, Option.bind_some, Subject.className?,
      Node.className?]
    cases node.content with
    | assignment assignment =>
      dsimp only
      split <;> rfl
    | package | importBlock | importPath | classBody | function | accessBlock | staticBlock | print
    | returnStatement | ifBranch | elseIfBranch | elseBranch | call | chain => rfl
  · rfl
  · simp only [after, exit]
    cases node.content <;> rfl

namespace Emitter

/-- A text is laid out in compact layout without regard to the emitter. -/
theorem text?_of_compact {first second : Emitter} (compact : first.layout = .compact)
    (compactOther : second.layout = .compact) (call : Call) :
    Emission.text? ⟨first, call⟩ = Emission.text? ⟨second, call⟩ := by
  cases call with
  | write text newlines terminated =>
    simp [Emission.text?, laidOut, indentation, compact, compactOther]
  | indent | dedent => rfl

/-- Where emitters stand makes no difference to the texts but in the spaces in front. -/
theorem unindented_text? {first second : Emitter} (same : first.layout = second.layout)
    (call : Call) :
    (Emission.text? ⟨first, call⟩).map Text.unindented =
      (Emission.text? ⟨second, call⟩).map Text.unindented := by
  have bare : ∀ (emitter : Emitter) (text : String) (more : List Char),
      ((emitter.indentation text).toList ++ more).dropWhile (· == ' ') =
        more.dropWhile (· == ' ') := by
    intro emitter text more
    refine List.dropWhile_append_of_pos fun c member => ?_
    unfold indentation at member
    split at member
    · rw [repeated, String.toList_ofList] at member
      exact beq_iff_eq.mpr (List.eq_of_mem_replicate member)
    · cases member
  cases call with
  | write text newlines terminated =>
    simp only [Emission.text?, Option.map_some, Text.unindented, laidOut,
      String.toList_append, List.append_assoc, bare, same]
  | indent | dedent => rfl

end Emitter

namespace Session

/-- The classes known behind visits are those that were known before and those entered. -/
theorem mem_classes_of_run {session final : Session} {visits : List Visit}
    (ran : listener.run visits session = (.ok (), final)) (name : String) :
    name ∈ final.classes ↔
      (∃ subject ∈ visits.filterMap Visit.entered?, subject.className? = some name) ∨
        name ∈ session.classes := by
  induction visits generalizing session with
  | nil =>
    cases ran
    simp
  | cons visit rest inductionHypothesis =>
    obtain ⟨next, visited, ran⟩ := listener.run_cons_ok_iff.mp ran
    rw [call_listener] at visited
    have classes : next.classes =
        (visit.entered?.bind Subject.className?).toList ++ session.classes :=
      (congrArg Situation.classes (situation_of_visit visited)).trans
        (session.situation.classes_after visit)
    rw [inductionHypothesis ran, classes, List.mem_append, List.filterMap_cons]
    cases visit.entered? with
    | none => simp
    | some subject =>
      simp only [Option.bind_some, Option.mem_toList, List.mem_cons, exists_eq_or_imp]
      rw [or_left_comm, or_assoc]

end Session

/-- The walk of a transcription calls the hook that enters a node at a place, on a session. -/
def Place.CalledOn (place : Place) (node : Node) (options : Options) (sink : Sink)
    (session : Session) : Prop :=
  (Session.listener.calls (place.fill node) (Session.start options sink))[
    (place.visitsBefore node).length]? = some (.enter (.inner node), session)

/-- What stands behind a node changes nothing about the hook that enters it: for a node at a
place, and one with the same content at the same place in another program, the walks come to
the hook and plan the same there. -/
structure Place.SameHook (options : Options) (sink : Sink) (place : Place) (node : Node)
    (session : Session) (other : Place) (changed : Node) : Prop where
  /-- The hook is called, unless lines are open in one program only and a sink with a limit
  refuses one. -/
  reached (free : sink.limit = none ∨ place.opensLines node = other.opensLines changed) :
    ∃ later, other.CalledOn changed options sink later
  /-- The same is done at the same depth. -/
  planned {later : Session} (called : other.CalledOn changed options sink later) :
    later.plan (.enter (.inner changed)) = session.plan (.enter (.inner node)) ∧
      later.emitter.depth = session.emitter.depth
  /-- The same is written but for the spaces in front. -/
  unindented {later : Session} (called : other.CalledOn changed options sink later) :
    (Emission.texts (later.emissions (.enter (.inner changed)))).map Text.unindented =
      (Emission.texts (session.emissions (.enter (.inner node)))).map Text.unindented
  /-- The very same is written, unless lines are open in one program only, which pretty layout
  does not indent. -/
  written {later : Session} (called : other.CalledOn changed options sink later)
    (even : options.layout = .compact ∨ place.opensLines node = other.opensLines changed) :
    Emission.texts (later.emissions (.enter (.inner changed))) =
      Emission.texts (session.emissions (.enter (.inner node)))

/-- What stands behind a node changes nothing about the hook that enters it. -/
theorem Place.SameBefore.sameHook {place other : Place} (same : place.SameBefore other)
    {node changed : Node} (content : changed.content = node.content)
    (hasChain : changed.hasChain = node.hasChain) {options : Options} {sink : Sink}
    {session : Session}
    (ran : Session.listener.run (place.visitsBefore node) (Session.start options sink) =
      (.ok (), session)) :
    place.SameHook options sink node session other changed := by
  have akin := same.akin node changed
  have abreast : Session.Abreast (Session.start options sink) (Session.start options sink) :=
    ⟨rfl, rfl, rfl⟩
  have entries : Visit.Matching (.enter (.inner changed)) (.enter (.inner node)) := by
    refine ⟨.enter content, ?_⟩
    simp only [Visit.opensLine, Node.opensLine, content, hasChain]
  -- Where the same lines are open, both walks are in the same session.
  have matched : place.opensLines node = other.opensLines changed →
      Session.listener.run (other.visitsBefore changed) (Session.start options sink) =
        (.ok (), session) := by
    intro lines
    rw [← (Session.run_of_matching (same.matching lines) _).1, ran]
  have planned : ∀ {later : Session},
      Session.listener.run (other.visitsBefore changed) (Session.start options sink) =
        (.ok (), later) →
      later.plan (.enter (.inner changed)) = session.plan (.enter (.inner node)) ∧
        later.emitter.depth = session.emitter.depth ∧ later.setting = session.setting := by
    intro later otherRan
    have reached := abreast.run akin ran otherRan
    refine ⟨?_, reached.depth.symm, reached.setting.symm⟩
    rw [later.plan_of_matching entries, reached.plan]
  refine ⟨?_, ?_, ?_, ?_⟩
  · rintro (unlimited | lines)
    · obtain ⟨later, otherRan⟩ := abreast.exists_run unlimited akin ran
      exact ⟨later, Session.listener.calls_at_place_iff.mpr otherRan⟩
    · exact ⟨session, Session.listener.calls_at_place_iff.mpr (matched lines)⟩
  · intro later called
    obtain ⟨same, depth, -⟩ := planned (Session.listener.calls_at_place_iff.mp called)
    exact ⟨same, depth⟩
  · intro later called
    obtain ⟨same, -, setting⟩ := planned (Session.listener.calls_at_place_iff.mp called)
    have layouts : later.emitter.layout = session.emitter.layout :=
      congrArg (·.1.layout) setting
    rw [Session.texts_enter, Session.texts_enter, Session.plannedCalls, Session.plannedCalls,
      same, List.map_filterMap, List.map_filterMap]
    exact List.filterMap_congr fun call _ => Emitter.unindented_text? layouts call
  · rintro later called (compact | lines)
    · obtain ⟨same, -, setting⟩ := planned (Session.listener.calls_at_place_iff.mp called)
      have layout : session.emitter.layout = .compact :=
        (congrArg (·.1.layout) (Session.setting_of_run ran)).trans compact
      have layoutOther : later.emitter.layout = .compact :=
        (congrArg (·.1.layout) setting).trans layout
      rw [Session.texts_enter, Session.texts_enter, Session.plannedCalls, Session.plannedCalls,
        same]
      exact List.filterMap_congr fun call _ => Emitter.text?_of_compact layoutOther layout call
    · have otherRan := Session.listener.calls_at_place_iff.mp called
      rw [matched lines] at otherRan
      cases otherRan
      rw [(session.visit_of_matching entries).2]

/-- Classes are known in preorder: when the walk of a transcription enters a program or node,
the known classes are those before it in preorder, and a segment of a chain constructs an
object exactly if it is the name of one of them. What stands behind in preorder changes
nothing about the hook, the own children of the node aside, but that in pretty layout its text
may gain or lose its indentation: where a chain makes an assignment or a return above the node
leave its line open in one program and not in the other. -/
theorem Program.classes_in_preorder (program : Program) (options : Options) (sink : Sink)
    {number : Nat} {subject : Subject} {session : Session}
    (called : (Session.listener.calls program (Session.start options sink))[number]? =
      some (.enter subject, session)) :
    ∃ before after, program.subjects = before ++ subject :: after ∧
      before = (program.visits.take number).filterMap Visit.entered? ∧
      (∀ name, name ∈ session.classes ↔ ∃ earlier ∈ before, earlier.className? = some name) ∧
      ∀ node, subject = .inner node →
        (∀ segments, node.content = .chain segments →
          (session.emissions (.enter subject)).map Emission.call =
            [.write (".".intercalate (segments.map fun segment =>
              segment.code options.layout
                (if before.any (·.className? == some segment.name) then .construction
                else .pathSegment))) 1 true]) ∧
        (∃ place : Place, program = place.fill node ∧ (place.visitsBefore node).length = number) ∧
        ∀ place : Place, program = place.fill node → (place.visitsBefore node).length = number →
          ∀ (other : Place) (changed : Node), place.SameBefore other →
            changed.content = node.content → changed.hasChain = node.hasChain →
            place.SameHook options sink node session other changed := by
  rw [Listener.calls_eq_trace, Listener.getElem?_trace_eq_some_iff] at called
  obtain ⟨visited, ran⟩ := called
  have known : ∀ name, name ∈ session.classes ↔
      ∃ earlier ∈ (program.visits.take number).filterMap Visit.entered?,
        earlier.className? = some name := by
    intro name
    rw [Session.mem_classes_of_run ran]
    exact or_iff_left (List.not_mem_nil)
  have subjects : program.subjects = (program.visits.take number).filterMap Visit.entered? ++
      subject :: (program.visits.drop (number + 1)).filterMap Visit.entered? := by
    rw [← program.nested_visits.entered]
    nth_rewrite 1 [split_of_getElem? visited]
    rw [List.filterMap_append, List.filterMap_cons]
    rfl
  refine ⟨_, _, subjects, rfl, known, ?_⟩
  rintro node rfl
  refine ⟨fun segments content => ?_, ?_, ?_⟩
  · have layout : session.layout = options.layout :=
      congrArg (·.1.layout) (Session.setting_of_run ran)
    have constructs : ∀ segment : Segment, segment.name ∈ session.classes ↔
        ((program.visits.take number).filterMap Visit.entered?).any
          (·.className? == some segment.name) = true := by
      intro segment
      rw [known]
      simp only [List.any_eq_true, beq_iff_eq]
    rw [Session.calls_chain content, Chain.code_eq_intercalate, Chain.texts, layout]
    simp only [Segment.code_resolve, constructs]
  · obtain ⟨place, filled, before⟩ := Program.exists_place visited
    refine ⟨place, filled, ?_⟩
    have within := (List.getElem?_eq_some_iff.mp visited).1
    rw [before, List.length_take, Nat.min_eq_left (Nat.le_of_lt within)]
  · rintro place rfl rfl other changed same content hasChain
    rw [place.visits_fill, List.append_assoc, List.take_left] at ran
    exact same.sameHook content hasChain ran

namespace Place

/-- A place in a function of a second class, with something behind that class. -/
def inSecondClass (behind : List Node) : Place :=
  ⟨1, [⟨2, .classBody "Engine", []⟩],
    [⟨3, .classBody "Car", [], []⟩, ⟨4, .function ⟨"run", [], false, none⟩, [], []⟩], behind⟩

/-- A chain of calls. -/
def threeSegments : Node :=
  ⟨5, .chain [⟨"Engine", some ["8"]⟩, ⟨"Car", none⟩, ⟨"Wheel", none⟩], []⟩

/-- The classes before a chain and around it are constructed, one behind it is not, and the
chain is written as it is without that class. -/
theorem classes_in_preorder_threeSegments :
    ∃ session later entry, entry = Visit.enter (.inner threeSegments) ∧
      (Session.listener.calls ((inSecondClass [⟨6, .classBody "Wheel", []⟩]).fill threeSegments)
        (Session.start ⟨.pretty, false⟩ {}))[5]? = some (entry, session) ∧
      (Session.listener.calls ((inSecondClass []).fill threeSegments)
        (Session.start ⟨.pretty, false⟩ {}))[5]? = some (entry, later) ∧
      (session.emissions entry).map Emission.call =
        [.write "new Engine(8).new Car().Wheel" 1 true] ∧
      Emission.texts (later.emissions entry) = Emission.texts (session.emissions entry) := by
  have succeeds : (((inSecondClass [⟨6, .classBody "Wheel", []⟩]).fill threeSegments).transcribe
      ⟨.pretty, false⟩ {}).result = .ok () := by
    decide +kernel
  have visited : ((inSecondClass [⟨6, .classBody "Wheel", []⟩]).fill threeSegments).visits[5]? =
      some (.enter (.inner threeSegments)) := rfl
  obtain ⟨session, called⟩ := Program.exists_call succeeds visited
  obtain ⟨before, after, -, rfl, -, facts⟩ := Program.classes_in_preorder _ _ _ called
  obtain ⟨written, -, unchanged⟩ := facts threeSegments rfl
  have same : (inSecondClass [⟨6, .classBody "Wheel", []⟩]).SameBefore (inSecondClass []) :=
    ⟨rfl, .cons ⟨rfl, rfl⟩ (.cons ⟨rfl, rfl⟩ .nil)⟩
  have hook := unchanged _ rfl rfl _ threeSegments same rfl rfl
  obtain ⟨later, calledLater⟩ := hook.reached (.inl rfl)
  refine ⟨session, later, _, rfl, called, calledLater, ?_, hook.written calledLater (.inr rfl)⟩
  refine (written _ rfl).trans ?_
  decide +kernel

/-- A place in an assignment, with something behind it there. -/
def inAssignment (behind : List Node) : Place :=
  ⟨1, [], [⟨2, .classBody "A", [], []⟩, ⟨3, .function ⟨"run", [], false, none⟩, [], []⟩,
    ⟨4, .assignment ⟨"x", none, none⟩, [], behind⟩], []⟩

/-- A node that writes a value. -/
def printing : Node :=
  ⟨5, .print ["y"] false, []⟩

/-- A chain behind a node takes away the indentation of its text, where it makes an assignment
above leave its line open. -/
theorem text_of_later_chain :
    (inAssignment []).SameBefore (inAssignment [⟨6, .chain [⟨"z", none⟩], []⟩]) ∧
    ((Session.listener.calls ((inAssignment []).fill printing)
      (Session.start ⟨.pretty, false⟩ {}))[4]?.map fun called =>
        Emission.texts (called.2.emissions called.1)) =
      some ["        Console.Write(y);\n"] ∧
    ((Session.listener.calls ((inAssignment [⟨6, .chain [⟨"z", none⟩], []⟩]).fill printing)
      (Session.start ⟨.pretty, false⟩ {}))[4]?.map fun called =>
        Emission.texts (called.2.emissions called.1)) =
      some ["Console.Write(y);\n"] := by
  refine ⟨⟨rfl, .cons ⟨rfl, rfl⟩ (.cons ⟨rfl, rfl⟩ (.cons ⟨rfl, rfl⟩ .nil))⟩, ?_, ?_⟩
  · decide +kernel
  · decide +kernel

end Place

end Treescribe
