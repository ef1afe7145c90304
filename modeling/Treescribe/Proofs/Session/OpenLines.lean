import Treescribe.Proofs.Session.Assignments
import Treescribe.Proofs.Session.Bodies
import Treescribe.Proofs.Session.Output
import Treescribe.Proofs.Value.Chains

/-!
# Lines that are left open

An assignment or a return with a chain among its children leaves its line open. What ends the
line is whatever is written next: `Session.LineEnd` follows the visits from there, past those
that write nothing and those that only start a line of their own, to the one that ends it. That
is the chain, unless a child before the chain writes something first: a statement, which ends
the line by a semicolon as the chain does, or the header of a block, which does not.
-/

namespace Treescribe

namespace Node

/-- Whether a node opens a block, wherever it does so at all. -/
def isBlock (node : Node) : Bool :=
  match node.content with
  | .package _ | .classBody _ | .function _ | .ifBranch _ | .elseIfBranch _ | .elseBranch => true
  | _ => false

/-- The nodes before the first chain among some nodes. -/
def beforeChain (nodes : List Node) : List Node :=
  nodes.takeWhile (·.kind != .classAccess)

/-- There is nothing before a chain that comes first. -/
theorem beforeChain_of_chain {node : Node} (chain : node.kind = .classAccess) (rest : List Node) :
    beforeChain (node :: rest) = [] := by
  simp [beforeChain, chain]

/-- Any other node comes before the first chain, with those behind it that do. -/
theorem beforeChain_of_other {node : Node} (other : node.kind ≠ .classAccess) (rest : List Node) :
    beforeChain (node :: rest) = node :: beforeChain rest := by
  simp [beforeChain, other]

end Node

namespace Session

/-- The text that a node starts a line with and leaves open: it has a chain among its children,
and it is a return, or an assignment in a body whose type is known. -/
def lineStart? (session : Session) (node : Node) : Option String :=
  if node.hasChain then
    match node.content with
    | .returnStatement _ => some "return "
    | .assignment assignment =>
      match TypeTag.readOptional assignment.type, session.scopes with
      | .ok tag, frame :: _ =>
        some (" ".intercalate ((if frame.isDeclared assignment.target then []
          else session.declarationTokens (session.declaration frame true assignment tag)) ++
            [targetCode assignment.target]) ++ " = ")
      | _, _ => none
    | _ => none
  else none

/-- Entering a node asks for the start of a line exactly if the node has one. -/
theorem lineStart?_eq_some_iff {session : Session} {node : Node} {start : String} :
    session.lineStart? node = some start ↔
      session.plannedCalls (.enter (.inner node)) = [.write start 0 false] := by
  unfold lineStart? plannedCalls
  simp only [plan, enterNode]
  cases node.content with
  | package path =>
    simp only [enterPackage]
    cases session.inPackage <;> simp [List.filterMap_cons, Action.openBlock, Action.call?]
  | function function =>
    simp only [enterFunction]
    cases session.scopes.enclosingClass? with
    | none => simp [List.filterMap_cons, Action.call?]
    | some frame =>
      cases header : function.header session.layout session.modifiers frame.name <;>
        simp [header, bind, Except.bind, pure, Except.pure, Action.openBlock, Action.call?]
  | assignment assignment =>
    simp only [enterAssignment]
    cases known : TypeTag.readOptional assignment.type with
    | error unknown => simp [bind, Except.bind]
    | ok tag =>
      rcases scopes : session.scopes with _ | ⟨frame, outer⟩
      · simp [bind, Except.bind, pure, Except.pure, List.filterMap_cons, Action.call?]
      · simp only [bind, Except.bind, pure, Except.pure, assign_calls, assignmentCall]
        cases node.hasChain <;> simp
  | print values newline =>
    simp only [enterPrint]
    generalize values.map (Value.code session.layout) ++ _ = written
    cases written <;> simp [Action.statement, Action.call?]
  | returnStatement value =>
    simp only [enterReturn]
    cases node.hasChain <;> cases value <;> simp [Action.statement, Action.opening, Action.call?]
  | chain segments =>
    simp only [enterChain, List.filterMap_append, filterMap_call?_notes]
    simp [Action.statement, Action.call?]
  | importBlock | importPath | classBody | accessBlock | staticBlock | ifBranch | elseIfBranch
  | elseBranch | call =>
    simp [List.filterMap_cons, enterClass, Action.statement, Action.openBlock, Action.call?]

/-- The start of a line ends in a blank. -/
theorem getLast?_lineStart {session : Session} {node : Node} {start : String}
    (starts : session.lineStart? node = some start) : start.toList.getLast? = some ' ' := by
  unfold lineStart? at starts
  split at starts
  · split at starts
    · cases starts
      decide
    · split at starts
      · cases starts
        rw [String.toList_append, List.getLast?_append]
        rfl
      · cases starts
    · cases starts
  · cases starts

/-- How an open line goes on along visits, each with the session before it, and whether the
header of a block ends it. Visits that ask nothing of the emitter and nodes that start a line of
their own leave the line open. -/
inductive LineEnd : List (Visit × Session) → String → Bool → Prop where
  | statement {visit : Visit} {session : Session} {later : List (Visit × Session)} {text : String}
      (calls : session.plannedCalls visit = [.write text 1 true]) :
      LineEnd ((visit, session) :: later) text false
  | header {node : Node} {session : Session} {later : List (Visit × Session)} {header : String}
      (opens : session.opensBlock node = true)
      (calls : session.plannedCalls (.enter (.inner node)) = headerCalls header) :
      LineEnd ((.enter (.inner node), session) :: later) header true
  | start {node : Node} {session : Session} {later : List (Visit × Session)} {start rest : String}
      {byBlock : Bool} (starts : session.lineStart? node = some start)
      (behind : LineEnd later rest byBlock) :
      LineEnd ((.enter (.inner node), session) :: later) (start ++ rest) byBlock
  | silent {visit : Visit} {session : Session} {later : List (Visit × Session)} {line : String}
      {byBlock : Bool} (calls : session.plannedCalls visit = [])
      (behind : LineEnd later line byBlock) : LineEnd ((visit, session) :: later) line byBlock

/-- Visits that ask nothing of the emitter. -/
def Silent (trace : List (Visit × Session)) : Prop :=
  ∀ called ∈ trace, called.2.plannedCalls called.1 = []

/-- A line that is ended stays so, whatever comes later. -/
theorem LineEnd.append {trace : List (Visit × Session)} {line : String} {byBlock : Bool}
    (ends : LineEnd trace line byBlock) (later : List (Visit × Session)) :
    LineEnd (trace ++ later) line byBlock := by
  induction ends with
  | statement calls => exact .statement calls
  | header opens calls => exact .header opens calls
  | start starts _ inductionHypothesis => exact .start starts inductionHypothesis
  | silent calls _ inductionHypothesis => exact .silent calls inductionHypothesis

/-- A line is ended behind silent visits as it is without them. -/
theorem Silent.lineEnd {first second : List (Visit × Session)} {line : String} {byBlock : Bool}
    (silent : Silent first) (ends : LineEnd second line byBlock) :
    LineEnd (first ++ second) line byBlock := by
  induction first with
  | nil => exact ends
  | cons called rest inductionHypothesis =>
    obtain ⟨here, later⟩ := List.forall_mem_cons.mp silent
    exact .silent here (inductionHypothesis later)

/-- A node that opens a block is one that does so in some place. -/
theorem isBlock_of_opensBlock {session : Session} {node : Node}
    (opens : session.opensBlock node = true) : node.isBlock = true := by
  unfold opensBlock at opens
  unfold Node.isBlock
  cases content : node.content <;> simp_all

/-- A chain opens no block. -/
theorem isBlock_of_chain {node : Node} (chain : node.kind = .classAccess) :
    node.isBlock = false := by
  obtain ⟨segments, content⟩ := node.content_of_kind.2 chain
  simp only [Node.isBlock, content]

/-- A node that opens no block on the way in closes none on the way out. -/
theorem plannedCalls_exit_of_plain {session inner last : Session} {node : Node}
    (plain : session.opensBlock node = false)
    (entered : session.visit (.enter (.inner node)) = (.ok (), inner))
    (passed : listener.run (node.children.flatMap Node.visits) inner = (.ok (), last)) :
    last.plannedCalls (.exit (.inner node)) = [] := by
  have bodies : last.scopes.map Frame.bare =
      (session.situation.enter node).scopes.map Frame.bare := by
    have moved := congrArg (·.scopes.map Frame.bare) (situation_of_run passed)
    rw [situation_of_visit entered] at moved
    exact moved.trans (Situation.bare_flatMap (fun child _ => Situation.bare_visits child) _)
  have closes : last.closesBlock node = false := by
    unfold opensBlock at plain
    unfold closesBlock
    cases content : node.content with
    | function function =>
      simp only [content] at plain ⊢
      simp only [Situation.enter, content, situation, plain] at bodies
      have innermost := congrArg List.head? bodies
      rw [List.head?_map] at innermost
      obtain ⟨frame, first, bare⟩ := Option.map_eq_some_iff.mp innermost
      have emitted : frame.emitted = false := congrArg Frame.emitted bare
      rw [first]
      exact emitted
    | classBody | ifBranch | elseIfBranch | elseBranch => simp [content] at plain
    | package | importBlock | importPath | accessBlock | staticBlock | assignment | print
    | returnStatement | call | chain => rfl
  rw [plannedCalls_exit, closes, if_neg (by simp)]

/-- Visits that end an open line, by the header of a block only if there is one among some nodes.
-/
def Ends (nodes : List Node) (trace : List (Visit × Session)) : Prop :=
  ∃ line byBlock, LineEnd trace line byBlock ∧
    (byBlock = true → ∃ block ∈ nodes.flatMap Node.preorder, block.isBlock = true)

/-- A line is ended by a block among more nodes if it is by one among fewer. -/
theorem Ends.mono {nodes others : List Node} {trace : List (Visit × Session)}
    (ends : Ends nodes trace) (subset : nodes ⊆ others) : Ends others trace := by
  obtain ⟨line, byBlock, ended, among⟩ := ends
  refine ⟨line, byBlock, ended, fun headed => ?_⟩
  obtain ⟨block, member, isBlock⟩ := among headed
  obtain ⟨node, within, below⟩ := List.mem_flatMap.mp member
  exact ⟨block, List.mem_flatMap.mpr ⟨node, subset within, below⟩, isBlock⟩

/-- A line that is ended below a node is ended among the visits of the node. -/
theorem Ends.below {node : Node} {trace : List (Visit × Session)}
    (ends : Ends (Node.beforeChain node.children) trace) (other : node.kind ≠ .classAccess)
    (later : List (Visit × Session)) : Ends (Node.beforeChain [node]) (trace ++ later) := by
  obtain ⟨line, byBlock, ended, among⟩ := ends
  refine ⟨line, byBlock, ended.append later, fun headed => ?_⟩
  obtain ⟨block, member, isBlock⟩ := among headed
  obtain ⟨child, before, within⟩ := List.mem_flatMap.mp member
  refine ⟨block, ?_, isBlock⟩
  rw [Node.beforeChain_of_other other, List.flatMap_cons, Node.preorder_eq]
  exact List.mem_append_left _ (List.mem_cons_of_mem _ (List.mem_flatMap.mpr
    ⟨child, (List.takeWhile_sublist _).subset before, within⟩))

/-- Subtrees beside each other end an open line if there is a chain among their roots, and then
at the first one; before it, others may do so. -/
theorem ends_flatMap {nodes : List Node}
    (each : ∀ node ∈ nodes, ∀ session final, listener.run node.visits session = (.ok (), final) →
      (node.kind ≠ .classAccess ∧ Silent (listener.trace node.visits session)) ∨
        Ends (Node.beforeChain [node]) (listener.trace node.visits session))
    {session final : Session}
    (walked : listener.run (nodes.flatMap Node.visits) session = (.ok (), final)) :
    (nodes.any (·.kind == .classAccess) = false ∧
        Silent (listener.trace (nodes.flatMap Node.visits) session)) ∨
      Ends (Node.beforeChain nodes) (listener.trace (nodes.flatMap Node.visits) session) := by
  induction nodes generalizing session with
  | nil => exact .inl ⟨rfl, fun called member => by cases member⟩
  | cons node rest inductionHypothesis =>
    rw [List.flatMap_cons] at walked ⊢
    obtain ⟨middle, passed, walked⟩ := listener.run_append_ok_iff.mp walked
    have others := inductionHypothesis (fun other member => each other (by simp [member])) walked
    rw [listener.trace_append passed]
    rcases each node (by simp) session middle passed with ⟨other, silent⟩ | ended
    · rw [Node.beforeChain_of_other other]
      rcases others with ⟨none, silentRest⟩ | ⟨line, byBlock, ended, among⟩
      · refine .inl ⟨by simp [other, none], fun called member => ?_⟩
        exact (List.mem_append.mp member).elim (silent called) (silentRest called)
      · have later : Ends (Node.beforeChain rest)
            (listener.trace node.visits session ++
              listener.trace (rest.flatMap Node.visits) middle) :=
          ⟨line, byBlock, silent.lineEnd ended, among⟩
        exact .inr (later.mono (List.subset_cons_self ..))
    · obtain ⟨line, byBlock, ended, among⟩ := ended
      have here : Ends (Node.beforeChain [node])
          (listener.trace node.visits session ++
            listener.trace (rest.flatMap Node.visits) middle) :=
        ⟨line, byBlock, ended.append _, among⟩
      refine .inr (here.mono ?_)
      by_cases chain : node.kind = .classAccess
      · simp [Node.beforeChain_of_chain chain]
      · rw [Node.beforeChain_of_other chain, Node.beforeChain_of_other chain]
        simp [Node.beforeChain]

/-- The visits of a walk through a node: those on the way in, below and out. -/
theorem trace_visits {session inner last : Session} {node : Node}
    (entered : session.visit (.enter (.inner node)) = (.ok (), inner))
    (passed : listener.run (node.children.flatMap Node.visits) inner = (.ok (), last)) :
    listener.trace node.visits session =
      (.enter (.inner node), session) ::
        (listener.trace (node.children.flatMap Node.visits) inner ++
          [(.exit (.inner node), last)]) := by
  rw [Node.visits_eq, List.cons_append, Listener.trace, call_listener, entered]
  simp only [listener.trace_append passed, Listener.trace]
  split <;> rfl

/-- A subtree ends an open line if it writes anything, and if its root is a chain in any case,
by a statement. -/
theorem ends_visits (node : Node) {session final : Session}
    (walked : listener.run node.visits session = (.ok (), final)) :
    (node.kind ≠ .classAccess ∧ Silent (listener.trace node.visits session)) ∨
      Ends (Node.beforeChain [node]) (listener.trace node.visits session) := by
  induction node using Node.byChildren generalizing session final with
  | step node inductionHypothesis =>
    obtain ⟨inner, last, entered, passed, left⟩ := listener.run_visits_ok_iff.mp walked
    rw [call_listener] at entered left
    have below := ends_flatMap
      (fun child member session final => @inductionHypothesis child member session final) passed
    rw [trace_visits entered passed]
    rcases plannedCalls_enter entered with ⟨opens, header, calls⟩ | ⟨opens, plain⟩
    · have isBlock := isBlock_of_opensBlock opens
      have other : node.kind ≠ .classAccess := by
        intro chain
        rw [isBlock_of_chain chain] at isBlock
        cases isBlock
      refine .inr ⟨header, true, .header opens calls, fun _ => ⟨node, ?_, isBlock⟩⟩
      rw [Node.beforeChain_of_other other, List.flatMap_cons, Node.preorder_eq]
      exact List.mem_append_left _ List.mem_cons_self
    · have leaving := plannedCalls_exit_of_plain opens entered passed
      generalize calls : session.plannedCalls (.enter (.inner node)) = made at plain
      cases plain with
      | silent other =>
        rcases below with ⟨-, silent⟩ | ended
        · refine .inl ⟨other, fun called member => ?_⟩
          rcases List.mem_cons.mp member with rfl | member
          · exact calls
          · rcases List.mem_append.mp member with inside | outside
            · exact silent called inside
            · rw [List.mem_singleton.mp outside]
              exact leaving
        · obtain ⟨line, byBlock, ended, among⟩ := ended.below other [(.exit (.inner node), last)]
          exact .inr ⟨line, byBlock, .silent calls ended, among⟩
      | statement text => exact .inr ⟨text, false, .statement calls, by simp⟩
      | opening text other completed =>
        rcases below with ⟨none, -⟩ | ended
        · exact absurd completed (by rw [Node.hasChain, none]; simp)
        · obtain ⟨line, byBlock, ended, among⟩ := ended.below other [(.exit (.inner node), last)]
          exact .inr ⟨text ++ line, byBlock, .start (lineStart?_eq_some_iff.mpr calls) ended, among⟩

/-- Nothing is indented in the middle of a line. -/
theorem indentation_inLine {emitter : Emitter} (inLine : emitter.atLineStart = false)
    (text : String) : emitter.indentation text = "" := by
  simp [Emitter.indentation, inLine]

/-- A node that starts a line adds that start, indented at the start of a line, and leaves the
line open. -/
theorem opened_of_lineStart {session inner : Session} (laysOut : LaysOut session) {node : Node}
    {start : String} (starts : session.lineStart? node = some start)
    (entered : session.visit (.enter (.inner node)) = (.ok (), inner)) :
    inner.emitter.sink.text =
        session.emitter.sink.text ++ (session.emitter.indentation start ++ start) ∧
      inner.emitter.atLineStart = false := by
  have laidOut : session.emitter.laidOut start 0 false =
      session.emitter.indentation start ++ start := by
    simp [Emitter.laidOut, Emitter.repeated]
  have reached : inner.emitter = session.emitter.next (.write start 0 false) := by
    rw [(emitter_of_visit laysOut.unlimited entered).1, lineStart?_eq_some_iff.mp starts]
    rfl
  rw [reached, Emitter.next_write_of_unlimited laysOut.unlimited, laidOut]
  refine ⟨rfl, ?_⟩
  simp only [Emitter.lineStartAfter, String.toList_append, List.getLast?_append,
    getLast?_lineStart starts]
  rfl

/-- What a sink holds is continued by the visits that follow. -/
theorem exists_text_of_run {session final : Session} (laysOut : LaysOut session)
    {visits : List Visit} (ran : listener.run visits session = (.ok (), final)) :
    ∃ more, final.emitter.sink.text = session.emitter.sink.text ++ more :=
  ⟨_, text_of_run laysOut.unlimited ran⟩

/-- A write that ends an open line adds its text and a line feed, whatever comes later. -/
theorem exists_text_of_end {session next final : Session} (laysOut : LaysOut session)
    (inLine : session.emitter.atLineStart = false) {text : String} {terminated : Bool}
    (ended : next.emitter.sink.text =
      (session.emitter.next (.write text 1 terminated)).sink.text)
    (laysOutNext : LaysOut next) {visits : List Visit}
    (ran : listener.run visits next = (.ok (), final)) :
    ∃ more, final.emitter.sink.text = session.emitter.sink.text ++
      (text ++ (if terminated then ";" else "") ++ "\n" ++ more) := by
  obtain ⟨more, later⟩ := exists_text_of_run laysOutNext ran
  refine ⟨more, ?_⟩
  rw [later, ended, Emitter.next_write_of_unlimited laysOut.unlimited, Emitter.laidOut,
    indentation_inLine inLine, laysOut.pretty]
  simp only [if_true, String.empty_append, String.append_assoc]
  rfl

/-- An open line goes on in the sink as it does along the visits, up to its line feed. -/
theorem LineEnd.text {visits : List Visit} {session final : Session} (laysOut : LaysOut session)
    (inLine : session.emitter.atLineStart = false)
    (ran : listener.run visits session = (.ok (), final)) {line : String} {byBlock : Bool}
    (ends : LineEnd (listener.trace visits session) line byBlock) :
    ∃ more, final.emitter.sink.text = session.emitter.sink.text ++
      (line ++ (if byBlock then " \x7b" else ";") ++ "\n" ++ more) := by
  induction visits generalizing session line with
  | nil => cases ends
  | cons visit rest inductionHypothesis =>
    obtain ⟨next, visited, went⟩ := listener.run_cons_ok_iff.mp ran
    rw [call_listener] at visited
    have laysOutNext := laysOut.visit visited
    have reached := (emitter_of_visit laysOut.unlimited visited).1
    rw [Listener.trace, call_listener, visited] at ends
    cases ends with
    | statement calls =>
      have ended : next.emitter.sink.text =
          (session.emitter.next (.write line 1 true)).sink.text := by
        rw [reached, calls]
        rfl
      obtain ⟨more, written⟩ := exists_text_of_end laysOut inLine ended laysOutNext went
      exact ⟨more, by simpa using written⟩
    | header opens calls =>
      have ended : next.emitter.sink.text =
          (session.emitter.next (.write (line ++ " \x7b") 1 false)).sink.text := by
        rw [reached, calls]
        rfl
      obtain ⟨more, written⟩ := exists_text_of_end laysOut inLine ended laysOutNext went
      exact ⟨more, by simpa [String.append_assoc] using written⟩
    | start starts behind =>
      obtain ⟨added, stillOpen⟩ := opened_of_lineStart laysOut starts visited
      obtain ⟨more, written⟩ := inductionHypothesis laysOutNext stillOpen went behind
      rw [indentation_inLine inLine, String.empty_append] at added
      exact ⟨more, by rw [written, added]; simp only [String.append_assoc]⟩
    | silent calls behind =>
      rw [calls] at reached
      have same : next.emitter = session.emitter := reached
      obtain ⟨more, written⟩ :=
        inductionHypothesis laysOutNext (by rw [same, inLine]) went behind
      exact ⟨more, by rw [written, same]⟩

/-- A node that starts a line has a chain among its children, and it is an assignment or a return.
-/
theorem content_of_lineStart {session : Session} {node : Node} {start : String}
    (starts : session.lineStart? node = some start) :
    node.hasChain = true ∧
      ((∃ assignment, node.content = .assignment assignment) ∨
        ∃ value, node.content = .returnStatement value) := by
  unfold lineStart? at starts
  split at starts
  · rename_i completed
    refine ⟨completed, ?_⟩
    split at starts
    · rename_i value content
      exact .inr ⟨value, content⟩
    · rename_i assignment content
      exact .inl ⟨assignment, content⟩
    · cases starts
  · cases starts

/-- A node that starts a line registers no class, and does nothing on the way out. -/
theorem quiet_of_lineStart {session : Session} {node : Node} {start : String}
    (starts : session.lineStart? node = some start) :
    (∀ situation : Situation, (situation.enter node).classes = situation.classes) ∧
      ∀ last : Session, last.exitNode node = [] := by
  obtain ⟨-, ⟨assignment, content⟩ | ⟨value, content⟩⟩ := content_of_lineStart starts
  · refine ⟨fun situation => ?_, fun last => by simp only [exitNode, content]⟩
    simp only [Situation.enter, content]
    split <;> rfl
  · exact ⟨fun situation => by simp only [Situation.enter, content],
      fun last => by simp only [exitNode, content]⟩

/-- At the start of a line, what starts the line is indented. -/
theorem indentation_of_lineStart {session : Session} (laysOut : LaysOut session)
    (atStart : session.emitter.atLineStart = true) {node : Node} {start : String}
    (starts : session.lineStart? node = some start) :
    session.emitter.indentation start = Emitter.repeated (4 * session.emitter.depth) ' ' := by
  have nonempty : start ≠ "" := by
    rintro rfl
    cases getLast?_lineStart starts
  simp [Emitter.indentation, laysOut.pretty, atStart, nonempty]

/-- A line that a node starts is ended in the walk through the node. -/
theorem ended_of_lineStart {session final : Session} (laysOut : LaysOut session)
    (atStart : session.emitter.atLineStart = true) {node : Node} {start : String}
    (starts : session.lineStart? node = some start)
    (walked : listener.run node.visits session = (.ok (), final)) :
    ∃ rest byBlock more,
      LineEnd (listener.trace node.visits session) (start ++ rest) byBlock ∧
      final.emitter.sink.text = session.emitter.sink.text ++
        (Emitter.repeated (4 * session.emitter.depth) ' ' ++ start ++ rest ++
          (if byBlock then " \x7b" else ";") ++ "\n" ++ more) ∧
      (byBlock = true →
        ∃ block ∈ (Node.beforeChain node.children).flatMap Node.preorder,
          block.isBlock = true) := by
  obtain ⟨completed, -⟩ := content_of_lineStart starts
  rw [Node.visits_eq, List.cons_append] at walked
  obtain ⟨inner, entered, went⟩ := listener.run_cons_ok_iff.mp walked
  obtain ⟨last, passed, -⟩ := listener.run_append_ok_iff.mp went
  rw [call_listener] at entered
  obtain ⟨added, stillOpen⟩ := opened_of_lineStart laysOut starts entered
  rw [indentation_of_lineStart laysOut atStart starts] at added
  rcases ends_flatMap (fun child _ session final => ends_visits child) passed with
    ⟨none, -⟩ | ⟨rest, byBlock, ended, among⟩
  · exact absurd completed (by rw [Node.hasChain, none]; simp)
  · have whole := ended.append (listener.trace [.exit (.inner node)] last)
    rw [← listener.trace_append passed] at whole
    obtain ⟨more, written⟩ := whole.text (laysOut.visit entered) stillOpen went
    refine ⟨rest, byBlock, more, ?_, ?_, among⟩
    · rw [trace_visits entered passed]
      exact .start starts (ended.append _)
    · rw [written, added]
      simp only [String.append_assoc]

/-- A node that starts a line is entered where the sink has no limit. -/
theorem exists_entered {session : Session} (laysOut : LaysOut session) {node : Node}
    {start : String} (starts : session.lineStart? node = some start) :
    ∃ inner, session.visit (.enter (.inner node)) = (.ok (), inner) := by
  have calls := lineStart?_eq_some_iff.mp starts
  unfold plannedCalls at calls
  cases planned : session.plan (.enter (.inner node)) with
  | error unknown =>
    rw [planned] at calls
    cases calls
  | ok actions =>
    obtain ⟨inner, ran, -⟩ := run_of_unlimited laysOut.unlimited actions
    exact ⟨inner, visit_eq_ok_iff.mpr ⟨actions, planned, ran⟩⟩

/-- A line that a node starts and the only child of the node, a chain without children, ends is
the start and the text of the chain. -/
theorem single_line {session : Session} (laysOut : LaysOut session)
    (atStart : session.emitter.atLineStart = true) {node : Node} {start : String}
    (starts : session.lineStart? node = some start) {id : UInt64} {segments : List Segment}
    (only : node.children = [⟨id, .chain segments, []⟩]) :
    ∃ final, listener.run node.visits session = (.ok (), final) ∧
      final.emitter.sink.text = session.emitter.sink.text ++
        (Emitter.repeated (4 * session.emitter.depth) ' ' ++ start ++
          Chain.code session.layout session.classes session.scopes.head? segments ++
            ";" ++ "\n") := by
  obtain ⟨inner, entered⟩ := exists_entered laysOut starts
  obtain ⟨added, stillOpen⟩ := opened_of_lineStart laysOut starts entered
  rw [indentation_of_lineStart laysOut atStart starts] at added
  have laysOutInner := laysOut.visit entered
  obtain ⟨sameClasses, silent⟩ := quiet_of_lineStart starts
  have classes : inner.classes = session.classes :=
    (congrArg Situation.classes (situation_of_visit entered)).trans (sameClasses session.situation)
  have writes := (@chain_onlyWrites ⟨id, .chain segments, []⟩ rfl rfl inner).performs
  have result := writes.result
  rw [Emitter.performAll_of_unlimited laysOutInner.unlimited] at result
  obtain ⟨last, passed⟩ : ∃ last,
      listener.run (Node.visits ⟨id, .chain segments, []⟩) inner = (.ok (), last) :=
    ⟨_, Prod.ext result rfl⟩
  have left : last.visit (.exit (.inner node)) = (.ok (), last) := by
    simp only [visit, plan, silent, run]
  refine ⟨last, listener.run_visits_ok_iff.mpr ⟨inner, last, ?_, ?_, ?_⟩, ?_⟩
  · rw [call_listener, entered]
  · rw [only, List.flatMap_singleton, passed]
  · rw [call_listener, left]
  · have same : Chain.code inner.layout inner.classes inner.scopes.head? segments =
        Chain.code session.layout session.classes session.scopes.head? segments := by
      rw [classes, layout, layout, laysOutInner.pretty, laysOut.pretty]
      exact Chain.code_frames ..
    have written := Emitter.text_of_write ((passed ▸ writes).of_ok)
    rw [written, added, Emitter.laidOut, indentation_inLine stillOpen, laysOutInner.pretty, same]
    simp only [if_true, String.empty_append, String.append_assoc]
    rfl

/-- A walk through a program that starts at the start of a line ends there, too. -/
theorem atLineStart_of_program {program : Program} {session final : Session}
    (laysOut : LaysOut session) (atStart : session.emitter.atLineStart = true)
    (walked : listener.run program.visits session = (.ok (), final)) :
    final.emitter.atLineStart = true := by
  rw [Program.visits, Node.visitsAll_eq_flatMap, List.cons_append] at walked
  obtain ⟨inner, entered, went⟩ := listener.run_cons_ok_iff.mp walked
  obtain ⟨last, passed, went⟩ := listener.run_append_ok_iff.mp went
  obtain ⟨_, left, ended⟩ := listener.run_cons_ok_iff.mp went
  cases ended
  rw [call_listener] at entered left
  have laysOutInner := laysOut.visit entered
  have begun : inner.emitter.atLineStart = true := by
    rw [(emitter_of_visit laysOut.unlimited entered).1]
    simp only [plannedCalls, plan]
    split
    · have pretty : (session.emitter.next (.write "using System" 1 true)).layout = .pretty := by
        rw [Emitter.next_layout, laysOut.pretty]
      exact Emitter.atLineStart_next pretty _ Nat.two_pos true
    · exact atStart
  have below := (closesLines_flatMap (fun child _ session final => closesLines_visits child)
    laysOutInner passed).1
  rw [(emitter_of_visit below.laysOut.unlimited left).1]
  simp only [plannedCalls, plan]
  split
  · exact atLineStart_after_footer below.laysOut.pretty
  · exact below.kept begun

end Session

namespace Program

/-- The text of a pretty transcription that succeeds is empty or ends in a line feed. -/
theorem atLineStart_of_success {program : Program} {preamble : Bool} {limit : Option Nat}
    (succeeds : (program.transcribe ⟨.pretty, preamble⟩ { limit }).result = .ok ()) :
    Text.AtLineStart (program.transcribe ⟨.pretty, preamble⟩ { limit }).text := by
  obtain ⟨succeeds, same⟩ := text_of_success succeeds
  rw [same, Transcript.text, transcribe_session]
  rw [transcribe_result] at succeeds
  have walked : Session.listener.run program.visits (Session.start ⟨.pretty, preamble⟩ {}) =
      (.ok (), _) := Prod.ext succeeds rfl
  have laysOut : Session.LaysOut (Session.start ⟨.pretty, preamble⟩ {}) := ⟨rfl, rfl⟩
  have tracks : (Session.start ⟨.pretty, preamble⟩ {}).emitter.Tracks := by
    simp [Emitter.Tracks, Text.AtLineStart, Session.start]
  exact (Session.kept_run Emitter.Tracks.next rfl tracks walked).mp
    (Session.atLineStart_of_program laysOut rfl walked)

end Program

namespace Session

/-- No line is left open by pretty text: a walk through any node that starts at the start of a
line and succeeds ends there, too. In particular, the line that an assignment or a return with a
chain among its children starts is ended by what is written next, below the node: by a semicolon
and a line feed, unless that is the header of a block that stands before the first chain. If the
only child is a chain without children, all of it stands on one line. So the text of a
transcription that succeeds is empty or ends in a line feed. -/
theorem lines_completed {session : Session} (laysOut : LaysOut session)
    (atStart : session.emitter.atLineStart = true) (node : Node) :
    (∀ final, (node.walk Session.hook).run.run session = (.ok (), final) →
      final.emitter.atLineStart = true ∧
      ∀ start, session.lineStart? node = some start →
        ∃ rest byBlock more,
          LineEnd (listener.trace node.visits session) (start ++ rest) byBlock ∧
          final.emitter.sink.text = session.emitter.sink.text ++
            (Emitter.repeated (4 * session.emitter.depth) ' ' ++ start ++ rest ++
              (if byBlock then " \x7b" else ";") ++ "\n" ++ more) ∧
          (byBlock = true →
            ∃ block ∈ (Node.beforeChain node.children).flatMap Node.preorder,
              block.isBlock = true)) ∧
    (∀ start id segments, session.lineStart? node = some start →
      node.children = [⟨id, .chain segments, []⟩] →
      ∃ final, (node.walk Session.hook).run.run session = (.ok (), final) ∧
        final.emitter.sink.text = session.emitter.sink.text ++
          (Emitter.repeated (4 * session.emitter.depth) ' ' ++ start ++
            Chain.code session.layout session.classes session.scopes.head? segments ++
              ";" ++ "\n")) ∧
    ∀ (program : Program) (preamble : Bool) (limit : Option Nat),
      (program.transcribe ⟨.pretty, preamble⟩ { limit }).result = .ok () →
      Text.AtLineStart (program.transcribe ⟨.pretty, preamble⟩ { limit }).text := by
  rw [run_walk]
  refine ⟨fun final walked => ⟨?_, fun start starts => ?_⟩, fun start id segments starts only => ?_,
    fun program preamble limit => Program.atLineStart_of_success⟩
  · exact (closesLines_visits node laysOut walked).1.kept atStart
  · exact ended_of_lineStart laysOut atStart starts walked
  · exact single_line laysOut atStart starts only

/-- A method of a class under way, two levels in. -/
def inMethod : Session :=
  { preamble := false
    emitter := { layout := .pretty, depth := 2 }
    scopes := [{ kind := .functionBody, name := "run", emitted := true },
      { kind := .classBody, name := "Main", emitted := true }] }

/-- An assignment whose value is a chain. -/
def chainValue : Node :=
  ⟨1, .assignment ⟨"size", none, none⟩, [⟨2, .chain [⟨"items", none⟩, ⟨"count", some []⟩], []⟩]⟩

/-- The assignment is written on one line, and the line is ended. -/
theorem lines_completed_chainValue :
    inMethod.lineStart? chainValue = some "var size = " ∧
      ∃ final, (chainValue.walk Session.hook).run.run inMethod = (.ok (), final) ∧
        final.emitter.atLineStart = true ∧
        final.emitter.sink.text = "        var size = items.count();\n" := by
  have laysOut : LaysOut inMethod := ⟨rfl, rfl⟩
  have starts : inMethod.lineStart? chainValue = some "var size = " := by decide +kernel
  obtain ⟨ends, single, -⟩ := lines_completed laysOut rfl chainValue
  obtain ⟨final, walked, written⟩ := single _ _ _ starts rfl
  refine ⟨starts, final, walked, (ends final walked).1, written.trans ?_⟩
  decide +kernel

end Session

namespace Program

/-- A method with an assignment that has a branch before the chain with its value. -/
def branchBeforeChain : Program :=
  ⟨1, [⟨2, .classBody "A", [⟨3, .function ⟨"run", [], false, none⟩,
    [⟨4, .assignment ⟨"x", none, none⟩,
      [⟨5, .ifBranch "if c", []⟩, ⟨6, .chain [⟨"z", none⟩], []⟩]⟩]⟩]⟩]⟩

/-- The line that the assignment starts is ended by the header of the branch, not by a
semicolon. -/
theorem line_ended_by_header :
    (branchBeforeChain.transcribe ⟨.pretty, false⟩ {}).result = .ok () ∧
    (branchBeforeChain.transcribe ⟨.pretty, false⟩ {}).text =
      "class A \x7b\n    public void run() \x7b\n        var x = " ++
        "if (c) \x7b\n        \x7d\n        z;\n    \x7d\n\x7d\n" ∧
    ¬ ∃ line more : String, '\n' ∉ line.toList ∧
      (branchBeforeChain.transcribe ⟨.pretty, false⟩ {}).text =
        "class A \x7b\n    public void run() \x7b\n        var x = " ++
          (line ++ ";\n" ++ more) := by
  have succeeds : (branchBeforeChain.transcribe ⟨.pretty, false⟩ {}).result = .ok () := by
    decide +kernel
  have text : (branchBeforeChain.transcribe ⟨.pretty, false⟩ {}).text =
      "class A \x7b\n    public void run() \x7b\n        var x = " ++
        "if (c) \x7b\n        \x7d\n        z;\n    \x7d\n\x7d\n" := by
    decide +kernel
  refine ⟨succeeds, text, ?_⟩
  rintro ⟨line, more, single, same⟩
  have plain : ∀ c ∈ line.toList, (c != '\n') = true := by
    intro c member
    exact bne_iff_ne.mpr fun feed => single (feed ▸ member)
  rw [text, String.append_assoc, ← String.toList_inj, String.toList_append, String.toList_append,
    List.append_cancel_left_eq] at same
  -- Up to its line feed, what follows the start of the line ends in a brace.
  have ended := congrArg (fun text => (text.takeWhile (· != '\n')).getLast?) same
  rw [String.toList_append, List.takeWhile_append_of_pos plain] at ended
  simp at ended

end Program

end Treescribe
