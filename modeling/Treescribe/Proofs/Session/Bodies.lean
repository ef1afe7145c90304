import Treescribe.Proofs.Session.Agreement
import Treescribe.Proofs.Session.Blocks

/-!
# Function bodies

What stands in the body of a function is over at its end. Classes, packages and blocks of
modifiers aside, the nodes in a body change nothing outside it: the names declared there go
with it, what they open they close, and the brace that ends the body stands on a line of its
own. So the text around the body of a function in a class is the same whatever the body is.
-/

namespace Treescribe

/-- Whether a node in the body of a function may change what is around the body. -/
def Node.reachesOut (node : Node) : Bool :=
  match node.content with
  | .classBody _ | .package _ | .accessBlock _ | .staticBlock => true
  | _ => false

/-- A node that does not reach out is no package. -/
theorem Node.kind_ne_package {node : Node} (inside : node.reachesOut = false) :
    node.kind ≠ .package := by
  intro package
  obtain ⟨path, content⟩ := node.content_of_kind.1 package
  simp [reachesOut, content] at inside

namespace Situation

/-- Two situations in the same body: they differ at most in the names declared in it. -/
structure SameOutside (first second : Situation) : Prop where
  outer : second.scopes.tail = first.scopes.tail
  classes : second.classes = first.classes
  modifiers : second.modifiers = first.modifiers
  inPackage : second.inPackage = first.inPackage

variable {first second third : Situation}

/-- A situation is the same as itself outside the body. -/
theorem SameOutside.refl (situation : Situation) : SameOutside situation situation :=
  ⟨rfl, rfl, rfl, rfl⟩

/-- What is the same outside the body in two steps is so in one. -/
theorem SameOutside.trans (before : SameOutside first second) (behind : SameOutside second third) :
    SameOutside first third :=
  ⟨behind.outer.trans before.outer, behind.classes.trans before.classes,
    behind.modifiers.trans before.modifiers, behind.inPackage.trans before.inPackage⟩

/-- Leaving a function leads back to the situation in which it was entered, if nothing changed
outside its body. -/
theorem exit_function {situation inner : Situation} {node : Node} {function : Function}
    (content : node.content = .function function)
    (same : SameOutside (situation.enter node) inner) : inner.exit node = situation := by
  obtain ⟨scopes, classes, modifiers, inPackage⟩ := situation
  obtain ⟨innerScopes, innerClasses, innerModifiers, innerPackage⟩ := inner
  obtain ⟨outer, sameClasses, sameModifiers, samePackage⟩ := same
  simp only [enter, exit, content, List.tail_cons] at outer sameClasses sameModifiers samePackage ⊢
  rw [outer, sameClasses, sameModifiers, samePackage]

/-- A subtree changes nothing outside the body it stands in if its children do not, and its
root does not reach out. -/
theorem sameOutside_node {node : Node} (inside : node.reachesOut = false)
    {situation inner : Situation} (same : SameOutside (situation.enter node) inner) :
    SameOutside situation (inner.exit node) := by
  cases content : node.content with
  | function function => exact exit_function content same ▸ .refl situation
  | assignment assignment =>
    have entered : SameOutside situation (situation.enter node) := by
      simp only [enter, content]
      split
      · exact .refl situation
      · refine ⟨?_, rfl, rfl, rfl⟩
        cases situation.scopes <;> rfl
    have left : inner.exit node = inner := by simp only [exit, content]
    rw [left]
    exact entered.trans same
  | classBody | package | accessBlock | staticBlock => simp [Node.reachesOut, content] at inside
  | importBlock | importPath | print | returnStatement | ifBranch | elseIfBranch | elseBranch | call
  | chain =>
    simp only [enter, exit, content] at same ⊢
    exact same

/-- Subtrees beside each other change nothing outside the body they stand in if none does. -/
theorem sameOutside_flatMap {nodes : List Node}
    (each : ∀ node ∈ nodes, ∀ situation,
      SameOutside situation (node.visits.foldl after situation)) (situation : Situation) :
    SameOutside situation ((nodes.flatMap Node.visits).foldl after situation) := by
  induction nodes generalizing situation with
  | nil => exact .refl situation
  | cons node rest inductionHypothesis =>
    rw [List.flatMap_cons, List.foldl_append]
    exact (each node (by simp) situation).trans
      (inductionHypothesis (fun other member => each other (by simp [member])) _)

/-- A subtree in which no node reaches out changes nothing outside the body it stands in. -/
theorem sameOutside_visits (node : Node)
    (inside : ∀ other ∈ node.preorder, other.reachesOut = false) (situation : Situation) :
    SameOutside situation (node.visits.foldl after situation) := by
  induction node using Node.byChildren generalizing situation with
  | step node inductionHypothesis =>
    rw [Node.preorder_eq] at inside
    have below : ∀ child ∈ node.children, ∀ situation,
        SameOutside situation (child.visits.foldl after situation) :=
      fun child member => inductionHypothesis child member fun other below =>
        inside other (List.mem_cons_of_mem _ (List.mem_flatMap.mpr ⟨child, member, below⟩))
    rw [Node.visits_eq, List.foldl_append, List.foldl_cons]
    exact sameOutside_node (inside node (by simp)) (sameOutside_flatMap below _)

end Situation

namespace Session

/-- Visits that succeed change the situation as the nodes visited say. -/
theorem situation_of_run {session final : Session} {visits : List Visit}
    (ran : listener.run visits session = (.ok (), final)) :
    final.situation = visits.foldl Situation.after session.situation := by
  induction visits generalizing session with
  | nil =>
    cases ran
    rfl
  | cons visit rest inductionHypothesis =>
    obtain ⟨next, visited, ran⟩ := listener.run_cons_ok_iff.mp ran
    rw [call_listener] at visited
    rw [inductionHypothesis ran, situation_of_visit visited]
    rfl

/-- Subtrees beside each other end as deep as they began if each of them does. -/
theorem depth_flatMap {above nodes : List Node}
    (each : ∀ node ∈ nodes, ∀ session final, ScopedBy above session →
      listener.run node.visits session = (.ok (), final) →
      final.emitter.depth = session.emitter.depth)
    {session final : Session} (settled : ScopedBy above session)
    (walked : listener.run (nodes.flatMap Node.visits) session = (.ok (), final)) :
    final.emitter.depth = session.emitter.depth := by
  induction nodes generalizing session with
  | nil =>
    cases walked
    rfl
  | cons node rest inductionHypothesis =>
    rw [List.flatMap_cons] at walked
    obtain ⟨middle, passed, walked⟩ := listener.run_append_ok_iff.mp walked
    have alone : listener.run ([node].flatMap Node.visits) session = (.ok (), middle) := by
      rwa [List.flatMap_singleton]
    have settledMiddle : ScopedBy above middle := lexical_scopedBy.back settled alone
    exact (inductionHypothesis (fun other member => each other (by simp [member])) settledMiddle
      walked).trans (each node (by simp) session middle settled passed)

/-- A walk through a subtree without packages ends as deep as it began, in any layout. -/
theorem depth_visits (node : Node) (free : ∀ other ∈ node.preorder, other.kind ≠ .package)
    {above : List Node} {session final : Session} (settled : ScopedBy above session)
    (walked : listener.run node.visits session = (.ok (), final)) :
    final.emitter.depth = session.emitter.depth := by
  induction node using Node.byChildren generalizing above session final with
  | step node inductionHypothesis =>
    obtain ⟨inner, last, entered, passed, left⟩ := listener.run_visits_ok_iff.mp walked
    have settledInner := lexical_scopedBy.enter settled entered
    have settledLast := lexical_scopedBy.back settledInner passed
    rw [call_listener] at entered left
    rw [Node.preorder_eq] at free
    have below := depth_flatMap
      (fun child member session final => @inductionHypothesis child member
        (fun other below =>
          free other (List.mem_cons_of_mem _ (List.mem_flatMap.mpr ⟨child, member, below⟩)))
        (node :: above) session final)
      settledInner passed
    have closes := closesBlock_eq_opensBlock (free node (by simp)) settled settledLast
    rw [depth_exit left, closes, below, depth_enter entered]
    split <;> simp

/-- An emitter as deep as that of a session, at the start of a line. -/
def closer (session : Session) : Emitter :=
  { layout := session.emitter.layout, depth := session.emitter.depth }

/-- The brace that ends a block is the same in compact layout wherever the emitter stands, and
in pretty layout at the start of a line. -/
theorem closing_brace {session : Session} {emitter : Emitter}
    (layout : emitter.layout = session.emitter.layout)
    (depth : emitter.depth = session.emitter.depth)
    (line : emitter.layout = .pretty → emitter.atLineStart = true) :
    emitter.laidOut "\x7d" 1 false = session.closer.laidOut "\x7d" 1 false ∧
      (emitter.next (.write "\x7d" 1 false)).stance =
        (session.closer.next (.write "\x7d" 1 false)).stance := by
  cases choice : emitter.layout with
  | pretty =>
    have stance : emitter.stance = session.closer.stance := by
      rw [Emitter.stance, Emitter.stance, layout, depth, line choice]
      rfl
    exact ⟨Emitter.laidOut_of_stance stance .., Emitter.stance_next stance _⟩
  | compact =>
    have compact : session.closer.layout = .compact := layout.symm.trans choice
    have text : emitter.laidOut "\x7d" 1 false = "\x7d" := by
      simp [Emitter.laidOut, Emitter.indentation, choice]
    have closing : session.closer.laidOut "\x7d" 1 false = "\x7d" := by
      simp [Emitter.laidOut, Emitter.indentation, compact]
    refine ⟨text.trans closing.symm, ?_⟩
    rw [Emitter.next_write, Emitter.next_write, text, closing, Emitter.stance, Emitter.stance]
    exact Prod.ext layout (Prod.ext depth rfl)

/-- What stands in a block of pretty text ends at the start of a line. -/
theorem atLineStart_in_block {session inner last : Session} {node : Node}
    (laysOut : LaysOut session) (opens : session.opensBlock node = true)
    (entered : session.visit (.enter (.inner node)) = (.ok (), inner))
    (passed : listener.run (node.children.flatMap Node.visits) inner = (.ok (), last)) :
    last.emitter.atLineStart = true := by
  have start : inner.emitter.atLineStart = true := by
    rcases plannedCalls_enter entered with ⟨-, header, calls⟩ | ⟨shut, -⟩
    · rw [(emitter_of_visit laysOut.unlimited entered).1, calls]
      exact atLineStart_after_header laysOut.pretty header
    · simp [shut] at opens
  have lines := closesLines_flatMap (fun child _ session final => closesLines_visits child)
    (laysOut.visit entered) passed
  exact lines.1.kept start

/-- The end of the body of a function: the session is as it was at the header, and the brace
stands as deep as the header. -/
structure EndsBody (session last final : Session) (node : Node) : Prop where
  setting : final.setting = session.setting
  situation : final.situation = session.situation
  stance : final.emitter.stance = (session.closer.next (.write "\x7d" 1 false)).stance
  brace : Emission.texts (last.emissions (.exit (.inner node))) =
    [session.closer.laidOut "\x7d" 1 false]

/-- The body of a function in a class is over at its end if no node in it reaches out. -/
theorem endsBody_of_function {above : List Node} {session inner last final : Session}
    {node : Node} {function : Function} (content : node.content = .function function)
    (settled : ScopedBy above session) (inClass : above.any Node.isClass = true)
    (unlimited : session.emitter.sink.limit = none)
    (inside : ∀ other ∈ node.children.flatMap Node.preorder, other.reachesOut = false)
    (entered : session.visit (.enter (.inner node)) = (.ok (), inner))
    (passed : listener.run (node.children.flatMap Node.visits) inner = (.ok (), last))
    (left : last.visit (.exit (.inner node)) = (.ok (), final)) :
    EndsBody session last final node := by
  have each : ∀ child ∈ node.children, ∀ other ∈ child.preorder, other.reachesOut = false :=
    fun child member other below => inside other (List.mem_flatMap.mpr ⟨child, member, below⟩)
  have opens : session.opensBlock node = true := by
    rw [opensBlock, content, settled.inClass, inClass]
  have settledInner := lexical_scopedBy.enter settled ((call_listener _ _).trans entered)
  have settledLast := lexical_scopedBy.back settledInner passed
  have closes : last.closesBlock node = true := by
    have other : node.kind ≠ .package := Node.kind_ne_package (by rw [Node.reachesOut, content])
    rw [closesBlock_eq_opensBlock other settled settledLast, opens]
  have settingLast : last.setting = session.setting :=
    (setting_of_run passed).trans (setting_of_visit entered)
  have layout : last.emitter.layout = session.emitter.layout :=
    congrArg (·.1.layout) settingLast
  have unlimitedLast : last.emitter.sink.limit = none :=
    (congrArg Prod.snd settingLast).trans unlimited
  have depth : last.emitter.depth = session.emitter.depth + 1 := by
    have below := depth_flatMap
      (fun child member session final => depth_visits child
        fun other below => Node.kind_ne_package (each child member other below))
      settledInner passed
    rw [below, depth_enter entered, if_pos opens]
  have line : last.emitter.layout = .pretty → last.emitter.atLineStart = true := fun pretty =>
    atLineStart_in_block ⟨layout.symm.trans pretty, unlimited⟩ opens entered passed
  obtain ⟨reached, emitted⟩ := emitter_of_visit unlimitedLast left
  rw [plannedCalls_exit, if_pos closes] at reached emitted
  have dedented : (last.emitter.next .dedent).depth = session.emitter.depth := by
    rw [Emitter.depth_next, depth]
    rfl
  obtain ⟨brace, stance⟩ := @closing_brace session (last.emitter.next .dedent) layout dedented line
  refine ⟨(setting_of_visit left).trans settingLast, ?_, ?_, ?_⟩
  · have below := Situation.sameOutside_flatMap
      (fun child member => Situation.sameOutside_visits child (each child member)) inner.situation
    rw [← situation_of_run passed, situation_of_visit entered] at below
    rw [situation_of_visit left]
    exact Situation.exit_function content below
  · rw [reached]
    exact stance
  · rw [emitted, Emitter.emissions_footer unlimitedLast, ← brace]
    rfl

/-- Behind two bodies of a function that is entered in the same session, the sessions are even. -/
theorem EndsBody.even {session last final otherLast otherFinal : Session} {node other : Node}
    (ends : EndsBody session last final node)
    (otherEnds : EndsBody session otherLast otherFinal other) : Even final otherFinal :=
  ⟨ends.setting.trans otherEnds.setting.symm, ends.situation.trans otherEnds.situation.symm,
    ends.stance.trans otherEnds.stance.symm⟩

/-- Entering a function in a class writes its header, and nothing else. -/
theorem texts_of_header {above : List Node} {session inner : Session} {node : Node}
    {function : Function} (content : node.content = .function function)
    (settled : ScopedBy above session) (inClass : above.any Node.isClass = true)
    (entered : session.visit (.enter (.inner node)) = (.ok (), inner)) :
    ∃ header, Emission.texts (session.emissions (.enter (.inner node))) =
      [session.emitter.laidOut (header ++ " \x7b") 1 false] := by
  rcases plannedCalls_enter entered with ⟨-, header, calls⟩ | ⟨shut, -⟩
  · refine ⟨header, ?_⟩
    rw [texts_enter, calls]
    rfl
  · rw [opensBlock, content, settled.inClass, inClass] at shut
    cases shut

/-- Where the sink has no limit, it holds what it held and then the texts of the visits. -/
theorem text_of_run {session final : Session} (unlimited : session.emitter.sink.limit = none)
    {visits : List Visit} (ran : listener.run visits session = (.ok (), final)) :
    final.emitter.sink.text =
      session.emitter.sink.text ++ String.join (session.textsAlong visits).flatten := by
  have texts : (session.textsAlong visits).flatten =
      Emission.texts (session.emissionsAlong visits) := by
    rw [textsAlong, emissionsAlong, Emission.texts, List.filterMap_flatMap, List.flatMap_def]
    rfl
  have sink : session.emitter.sink = { text := session.emitter.sink.text } := by
    rw [← unlimited]
  have same : session.into session.emitter.sink = session := rfl
  have poured := visits_into unlimited session.emitter.sink visits
  rw [same, ran, ← texts, Pours, sink, Sink.fill_of_unlimited] at poured
  exact congrArg (·.2.emitter.sink.text) poured

end Session

/-- The texts that the hooks of a transcription write, hook by hook. -/
def Program.textsByHook (program : Program) (options : Options) (sink : Sink) :
    List (List String) :=
  (Session.listener.calls program (Session.start options sink)).map fun called =>
    Emission.texts (called.2.emissions called.1)

/-- A transcription divided at a node: the texts of the hooks up to its entry, of those below
it and of those from its exit on, which make up the text. -/
structure Place.Divides (place : Place) (node : Node) (options : Options) (written : String)
    (opening inner closing : List (List String)) : Prop where
  visits : (place.fill node).visits =
    place.visitsBefore node ++ .enter (.inner node) ::
      (node.children.flatMap Node.visits ++ .exit (.inner node) :: place.visitsBehind node)
  hooks : (place.fill node).textsByHook options { text := written } = opening ++ inner ++ closing
  opened : opening.length = (place.visitsBefore node).length + 1
  enclosed : inner.length = (node.children.flatMap Node.visits).length
  text : ((place.fill node).transcribe options { text := written }).text =
    written ++ String.join opening.flatten ++ String.join inner.flatten ++
      String.join closing.flatten

/-- The sessions of a transcription around a node at a place: those before and behind its entry,
before and behind its exit, and the last one. -/
structure Place.Walked (place : Place) (node : Node)
    (start session inner last final ended : Session) : Prop where
  before : Session.listener.run (place.visitsBefore node) start = (.ok (), session)
  entered : session.visit (.enter (.inner node)) = (.ok (), inner)
  passed : Session.listener.run (node.children.flatMap Node.visits) inner = (.ok (), last)
  left : last.visit (.exit (.inner node)) = (.ok (), final)
  behind : Session.listener.run (place.visitsBehind node) final = (.ok (), ended)

namespace Place

/-- A transcription that succeeds walks around and through every node. -/
theorem exists_walked {place : Place} {node : Node} {options : Options} {sink : Sink}
    (succeeds : ((place.fill node).transcribe options sink).result = .ok ()) :
    ∃ session inner last final,
      place.Walked node (Session.start options sink) session inner last final
        ((place.fill node).transcribe options sink).session := by
  have result := (place.fill node).transcribe_result options sink
  rw [succeeds] at result
  have ran : Session.listener.run (place.fill node).visits (Session.start options sink) =
      (.ok (), ((place.fill node).transcribe options sink).session) :=
    Prod.ext result.symm ((place.fill node).transcribe_session options sink).symm
  rw [place.visits_fill, List.append_assoc] at ran
  obtain ⟨session, before, ran⟩ := Session.listener.run_append_ok_iff.mp ran
  obtain ⟨final, through, behind⟩ := Session.listener.run_append_ok_iff.mp ran
  obtain ⟨inner, last, entered, passed, left⟩ := Session.listener.run_visits_ok_iff.mp through
  rw [Session.call_listener] at entered left
  exact ⟨session, inner, last, final, before, entered, passed, left, behind⟩

/-- The parts of a walk are a walk. -/
theorem Walked.run {place : Place} {node : Node} {start session inner last final ended : Session}
    (walked : place.Walked node start session inner last final ended) :
    Session.listener.run (place.fill node).visits start = (.ok (), ended) := by
  obtain ⟨before, entered, passed, left, behind⟩ := walked
  rw [← Session.call_listener] at entered left
  have through := Session.listener.run_visits_ok_iff.mpr ⟨inner, last, entered, passed, left⟩
  rw [place.visits_fill, List.append_assoc]
  exact Session.listener.run_append_ok_iff.mpr
    ⟨session, before, Session.listener.run_append_ok_iff.mpr ⟨final, through, behind⟩⟩

/-- What is written in a transcription falls into the texts up to the entry of a node, those
below it and those from its exit on. -/
theorem Walked.divides {place : Place} {node : Node} {options : Options} {written : String}
    {session inner last final : Session}
    (walked : place.Walked node (Session.start options { text := written }) session inner last final
      ((place.fill node).transcribe options { text := written }).session) :
    place.Divides node options written
      ((Session.start options { text := written }).textsAlong (place.visitsBefore node) ++
        [Emission.texts (session.emissions (.enter (.inner node)))])
      (inner.textsAlong (node.children.flatMap Node.visits))
      (Emission.texts (last.emissions (.exit (.inner node))) ::
        final.textsAlong (place.visitsBehind node)) := by
  have ran := walked.run
  obtain ⟨before, entered, passed, left, behind⟩ := walked
  have visits : (place.fill node).visits =
      place.visitsBefore node ++ .enter (.inner node) ::
        (node.children.flatMap Node.visits ++ .exit (.inner node) :: place.visitsBehind node) := by
    rw [place.visits_fill, node.visits_eq]
    simp only [List.append_assoc, List.cons_append, List.nil_append]
  have hooks : (Session.start options { text := written }).textsAlong (place.fill node).visits =
      (Session.start options { text := written }).textsAlong (place.visitsBefore node) ++
        [Emission.texts (session.emissions (.enter (.inner node)))] ++
        inner.textsAlong (node.children.flatMap Node.visits) ++
        (Emission.texts (last.emissions (.exit (.inner node))) ::
          final.textsAlong (place.visitsBehind node)) := by
    rw [visits, Session.textsAlong_append before, Session.textsAlong_cons entered,
      Session.textsAlong_append passed, Session.textsAlong_cons left]
    simp only [List.append_assoc, List.cons_append, List.nil_append]
  refine ⟨visits, ?_, ?_, Session.length_textsAlong passed, ?_⟩
  · rw [Program.textsByHook, Listener.calls_eq_trace]
    exact hooks
  · rw [List.length_append, Session.length_textsAlong before]
    rfl
  · have text := Session.text_of_run rfl ran
    rw [hooks, List.flatten_append, List.flatten_append, String.join_append, String.join_append]
      at text
    rw [Transcript.text, text]
    simp only [String.append_assoc]
    rfl

/-- At a place in a class, the session knows of a class around. -/
theorem Walked.settled {place : Place} {node : Node} {options : Options} {sink : Sink}
    {session inner last final ended : Session}
    (walked : place.Walked node (Session.start options sink) session inner last final ended)
    (inClass : ∃ level ∈ place.levels, ∃ name, level.content = .classBody name) :
    Session.ScopedBy (place.ancestors node) session ∧
      (place.ancestors node).any Node.isClass = true := by
  have begun : Session.ScopedBy [] (Session.start options sink) := rfl
  refine ⟨Session.lexical_scopedBy.at_place begun walked.before, ?_⟩
  obtain ⟨level, member, name, content⟩ := inClass
  obtain ⟨ancestor, above, same⟩ := Level.exists_ancestor member [] node
  refine List.any_eq_true.mpr ⟨ancestor, above, ?_⟩
  simp [Node.isClass, Node.className?, same, content]

/-- The body of a function at a place in a class is over at its end if no node in it reaches
out. -/
theorem Walked.endsBody {place : Place} {id : UInt64} {function : Function} {body : List Node}
    {options : Options} {written : String} {session inner last final ended : Session}
    (walked : place.Walked ⟨id, .function function, body⟩
      (Session.start options { text := written }) session inner last final ended)
    (inClass : ∃ level ∈ place.levels, ∃ name, level.content = .classBody name)
    (inside : ∀ node ∈ body.flatMap Node.preorder, node.reachesOut = false) :
    Session.EndsBody session last final ⟨id, .function function, body⟩ := by
  obtain ⟨settled, around⟩ := walked.settled inClass
  have unlimited : session.emitter.sink.limit = none :=
    congrArg Prod.snd (Session.setting_of_run walked.before)
  exact Session.endsBody_of_function rfl settled around unlimited inside walked.entered
    walked.passed walked.left

/-- The text around the body of a function in a class does not depend on the body: if the
children of the function are replaced, none of them is or contains a class, a package or a
block of modifiers, and both transcriptions succeed, they write the same up to the header of
the function and the same from its closing brace on. -/
theorem text_around_body (place : Place) (id : UInt64) (function : Function)
    (body other : List Node) (options : Options) (written : String)
    (inClass : ∃ level ∈ place.levels, ∃ name, level.content = .classBody name)
    (inside : ∀ node ∈ body.flatMap Node.preorder ++ other.flatMap Node.preorder,
      node.reachesOut = false)
    (succeeds : ((place.fill ⟨id, .function function, body⟩).transcribe options
      { text := written }).result = .ok ())
    (otherSucceeds : ((place.fill ⟨id, .function function, other⟩).transcribe options
      { text := written }).result = .ok ()) :
    ∃ opening inner otherInner closing,
      place.Divides ⟨id, .function function, body⟩ options written opening inner closing ∧
      place.Divides ⟨id, .function function, other⟩ options written opening otherInner closing ∧
      ∃ depth start header,
        opening.getLast? = some [Emitter.laidOut
          { layout := options.layout, depth, atLineStart := start } (header ++ " \x7b") 1 false] ∧
        closing.head? = some [Emitter.laidOut
          { layout := options.layout, depth } "\x7d" 1 false] := by
  obtain ⟨session, inner, last, final, walked⟩ := exists_walked succeeds
  obtain ⟨otherSession, otherInner, otherLast, otherFinal, otherWalked⟩ :=
    exists_walked otherSucceeds
  have kinds : Node.kind ⟨id, .function function, body⟩ =
      Node.kind ⟨id, .function function, other⟩ := rfl
  -- Up to the header both walks are in the same session.
  have before := (SameBefore.refl place).matching (Level.opensLines_of_kind place.levels kinds)
  obtain ⟨same, openings⟩ := Session.run_of_matching before
    (Session.start options { text := written })
  rw [walked.before, otherWalked.before] at same
  cases same
  have entries : Visit.Matching (.enter (.inner ⟨id, .function function, body⟩))
      (.enter (.inner ⟨id, .function function, other⟩)) := ⟨.enter rfl, rfl⟩
  have headers := (session.visit_of_matching entries).2
  -- Behind the body the sessions are even, and what is left to visit matches.
  have ends := walked.endsBody inClass fun node member => inside node (by simp [member])
  have otherEnds := otherWalked.endsBody inClass fun node member => inside node (by simp [member])
  have unlimited : final.emitter.sink.limit = none := by
    have kept := ends.setting.trans (Session.setting_of_run walked.before)
    exact congrArg Prod.snd kept
  have behind := place.matching_visitsBehind ⟨id, .function function, body⟩
    ⟨id, .function function, other⟩
  have closings := ((ends.even otherEnds).run unlimited walked.behind).2.trans
    (Session.run_of_matching behind otherFinal).2
  obtain ⟨settled, around⟩ := walked.settled inClass
  obtain ⟨header, headerText⟩ := Session.texts_of_header rfl settled around walked.entered
  have layout : session.emitter.layout = options.layout :=
    congrArg (·.1.layout) (Session.setting_of_run walked.before)
  have divides := walked.divides
  have otherDivides := otherWalked.divides
  rw [← openings, ← headers, ← closings, otherEnds.brace, ← ends.brace] at otherDivides
  refine ⟨_, _, _, _, divides, otherDivides, session.emitter.depth, session.emitter.atLineStart,
    header, ?_, ?_⟩
  · rw [List.getLast?_concat, headerText, ← layout]
    rfl
  · rw [List.head?_cons, ends.brace, ← layout]
    rfl

/-- A place in a class, between a field and a function that assigns to it. -/
def inCounter : Place :=
  ⟨1, [], [⟨2, .classBody "Counter", [⟨3, .assignment ⟨"count", some "Integer", none⟩, []⟩],
    [⟨9, .function ⟨"reset", [], false, none⟩,
      [⟨10, .assignment ⟨"count", none, some "0"⟩, []⟩]⟩]⟩], []⟩

/-- A body with a line that a chain ends, and a branch. -/
def branchingBody : List Node :=
  [⟨5, .assignment ⟨"next", none, none⟩, [⟨6, .chain [⟨"count", none⟩], []⟩]⟩,
    ⟨7, .ifBranch "if next", [⟨8, .print ["next"] true, []⟩]⟩]

/-- A body with a function of its own. -/
def nestingBody : List Node :=
  [⟨5, .function ⟨"inner", [], false, none⟩, [⟨6, .assignment ⟨"count", none, some "1"⟩, []⟩]⟩]

/-- The text around is the same for both bodies. -/
theorem text_around_body_inCounter :
    (∀ node ∈ branchingBody.flatMap Node.preorder ++ nestingBody.flatMap Node.preorder,
      node.reachesOut = false) ∧
    ∃ opening inner otherInner closing,
      inCounter.Divides ⟨4, .function ⟨"run", [], false, none⟩, branchingBody⟩ ⟨.pretty, true⟩ ""
        opening inner closing ∧
      inCounter.Divides ⟨4, .function ⟨"run", [], false, none⟩, nestingBody⟩ ⟨.pretty, true⟩ ""
        opening otherInner closing := by
  have inside : ∀ node ∈ branchingBody.flatMap Node.preorder ++ nestingBody.flatMap Node.preorder,
      node.reachesOut = false := by
    decide
  obtain ⟨opening, inner, otherInner, closing, divides, otherDivides, -⟩ :=
    inCounter.text_around_body 4 ⟨"run", [], false, none⟩ branchingBody nestingBody
      ⟨.pretty, true⟩ "" ⟨_, List.mem_cons_self, "Counter", rfl⟩ inside (by decide +kernel)
      (by decide +kernel)
  exact ⟨inside, opening, inner, otherInner, closing, divides, otherDivides⟩

end Place

end Treescribe
