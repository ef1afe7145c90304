import Treescribe.Proofs.Session.Emissions

/-!
# Lines of pretty text

In pretty layout a write with line feeds ends a line. A node writes a header, a statement
or nothing on its way in, or the start of a line if there is a chain among its children,
which ends that line. So no line is left open: a walk through a subtree that starts at the
start of a line ends there, too, and one through a chain ends there in any case.
-/

namespace Treescribe

namespace Emitter

/-- The text ends in a line feed if the emitter takes itself to be at the start of a line. -/
def EndsLine (emitter : Emitter) : Prop :=
  emitter.atLineStart = true → emitter.sink.text.toList.getLast? = some '\n'

/-- Pretty text with line feeds behind it ends in one. -/
theorem getLast?_laidOut {emitter : Emitter} (pretty : emitter.layout = .pretty) (text : String)
    {newlines : Nat} (ends : 0 < newlines) (terminated : Bool) :
    (emitter.laidOut text newlines terminated).toList.getLast? = some '\n' := by
  obtain ⟨fewer, rfl⟩ := Nat.exists_eq_succ_of_ne_zero (Nat.ne_of_gt ends)
  simp [laidOut, pretty, repeated, List.getLast?_append, List.getLast?_replicate]

/-- A line that is ended leaves the emitter at the start of the next. -/
theorem atLineStart_next {emitter : Emitter} (pretty : emitter.layout = .pretty) (text : String)
    {newlines : Nat} (ends : 0 < newlines) (terminated : Bool) :
    (emitter.next (.write text newlines terminated)).atLineStart = true := by
  rw [next_write, lineStartAfter, getLast?_laidOut pretty text ends]
  rfl

/-- Every call tells the start of a line by the end of the text, if it was so before. -/
theorem EndsLine.next {emitter : Emitter} (unlimited : emitter.sink.limit = none)
    (known : emitter.EndsLine) (call : Call) : (emitter.next call).EndsLine := by
  cases call with
  | write text newlines terminated =>
    rw [next_write_of_unlimited unlimited]
    unfold EndsLine lineStartAfter
    simp only [String.toList_append, List.getLast?_append]
    cases (emitter.laidOut text newlines terminated).toList.getLast? with
    | none => simpa [EndsLine] using known
    | some last => simp
  | indent | dedent => exact known

/-- The text ends in a line feed behind a line that is ended, whatever it was before. -/
theorem endsLine_next {emitter : Emitter} (unlimited : emitter.sink.limit = none)
    (pretty : emitter.layout = .pretty) (text : String) {newlines : Nat} (ends : 0 < newlines)
    (terminated : Bool) : (emitter.next (.write text newlines terminated)).EndsLine := by
  intro _
  rw [next_write_of_unlimited unlimited, String.toList_append, List.getLast?_append,
    getLast?_laidOut pretty text ends]
  rfl

end Emitter

/-- Packages and chains are the nodes of one kind each. -/
theorem Node.content_of_kind (node : Node) :
    (node.kind = .package → ∃ path, node.content = .package path) ∧
      (node.kind = .classAccess → ∃ segments, node.content = .chain segments) := by
  unfold kind
  cases node.content with
  | function function =>
    obtain ⟨name, parameters, isOverride, returnType⟩ := function
    cases isOverride <;> cases returnType <;> simp [Content.kind, Function.kind]
  | accessBlock access => cases access <;> simp [Content.kind]
  | package | importBlock | importPath | classBody | staticBlock | assignment | print
  | returnStatement | ifBranch | elseIfBranch | elseBranch | call | chain => simp [Content.kind]

namespace Session

/-- A session that lays out pretty text into a sink without a limit. -/
structure LaysOut (session : Session) : Prop where
  pretty : session.emitter.layout = .pretty
  unlimited : session.emitter.sink.limit = none

/-- A visit changes neither the layout nor the limit. -/
theorem LaysOut.visit {session next : Session} (laysOut : LaysOut session) {visit : Visit}
    (visited : session.visit visit = (.ok (), next)) : LaysOut next := by
  have same := session.visit_setting visit
  rw [visited] at same
  have layouts : next.emitter.layout = session.emitter.layout := congrArg (·.1.layout) same
  have limits : next.emitter.sink.limit = session.emitter.sink.limit := congrArg Prod.snd same
  exact ⟨layouts.trans laysOut.pretty, limits.trans laysOut.unlimited⟩

/-- Whether a node opens a block when it is entered. A package does so if it is the first,
a function if there is a class around it. -/
def opensBlock (session : Session) (node : Node) : Bool :=
  match node.content with
  | .classBody _ | .ifBranch _ | .elseIfBranch _ | .elseBranch => true
  | .function _ => session.scopes.enclosingClass?.isSome
  | .package _ => !session.inPackage
  | _ => false

/-- What a node that opens no block asks of the emitter when it is entered. -/
inductive PlainEntry (node : Node) : List Call → Prop where
  | silent (other : node.kind ≠ .classAccess) : PlainEntry node []
  | statement (text : String) : PlainEntry node [.write text 1 true]
  /-- The start of a line, which a chain among the children ends. -/
  | opening (text : String) (other : node.kind ≠ .classAccess) (completed : node.hasChain = true) :
    PlainEntry node [.write text 0 false]

/-- The calls of a header. -/
def headerCalls (header : String) : List Call :=
  [.write (header ++ " \x7b") 1 false, .indent]

/-- The calls that close a block. -/
def footerCalls : List Call :=
  [.dedent, .write "\x7d" 1 false]

/-- A header ends its line. -/
theorem atLineStart_after_header {emitter : Emitter} (pretty : emitter.layout = .pretty)
    (header : String) : (emitter.after (headerCalls header)).atLineStart = true :=
  Emitter.atLineStart_next pretty (header ++ " \x7b") Nat.one_pos false

/-- The end of a block ends its line. -/
theorem atLineStart_after_footer {emitter : Emitter} (pretty : emitter.layout = .pretty) :
    (emitter.after footerCalls).atLineStart = true := by
  have dedented : (emitter.next .dedent).layout = .pretty := by rw [Emitter.next_layout, pretty]
  exact Emitter.atLineStart_next dedented "\x7d" Nat.one_pos false

/-- Notices ask nothing of the emitter. -/
@[simp] theorem filterMap_call?_notes (notices : List Notice) :
    (notices.map Action.note).filterMap Action.call? = [] := by
  simp [List.filterMap_map, Function.comp_def, Action.call?]

/-- What an assignment asks of the emitter: the start of its line, up to the target, and its
value if it has one, unless a chain ends the line. -/
def assignmentCall (session : Session) (hasChain : Bool) (assignment : Assignment)
    (tag : Option TypeTag) (start : String) : Call :=
  if hasChain then .write (start ++ " = ") 0 false
  else
    let shape := Shape.classify session.classes hasChain assignment.value
    .write (start ++ assignment.value.elim "" fun value =>
      " = " ++ Value.render session.layout shape (tag == some .float) value) 1 true

/-- A target with a value behind it is the text of both around an equality sign. -/
theorem intercalate_value (tokens : List String) (target value : String) :
    " ".intercalate (tokens ++ [target] ++ ["=", value]) =
      " ".intercalate (tokens ++ [target]) ++ (" = " ++ value) := by
  have equals : " " ++ "=" ++ " " = " = " := by decide
  rw [String.intercalate_append_of_ne_nil (by simp) (by simp), String.intercalate_cons_cons,
    String.intercalate_singleton, ← equals]
  simp only [String.append_assoc]

/-- An assignment is one line, which has the tokens of a declaration if its target is not
declared yet. -/
theorem assign_calls (session : Session) (frame : Frame) (hasChain : Bool)
    (assignment : Assignment) (tag : Option TypeTag) :
    (session.assign frame hasChain assignment tag).filterMap Action.call? =
      [session.assignmentCall hasChain assignment tag
        (" ".intercalate ((if frame.isDeclared assignment.target then []
          else session.declarationTokens (session.declaration frame hasChain assignment tag)) ++
            [targetCode assignment.target]))] := by
  have declares : ∀ (asked : Bool) (name : String),
      (if asked then [Action.declare name] else []).filterMap Action.call? = [] := by
    intro asked name
    cases asked <;> rfl
  have reports : ∀ (asked : Bool) (notices : List Notice),
      (if asked then notices.map Action.note else []).filterMap Action.call? = [] := by
    intro asked notices
    cases asked
    · rfl
    · exact filterMap_call?_notes notices
  have fresh : ∀ tokens : List String,
      (if !frame.isDeclared assignment.target then tokens else []) =
      if frame.isDeclared assignment.target then [] else tokens := by
    intro tokens
    cases frame.isDeclared assignment.target <;> rfl
  unfold assign assignmentCall
  simp only [List.filterMap_append, declares, reports, List.nil_append, fresh]
  cases hasChain with
  | true => rfl
  | false =>
    have valued := intercalate_value
      (if frame.isDeclared assignment.target then []
        else session.declarationTokens (session.declaration frame false assignment tag))
      (targetCode assignment.target)
    have shape : (session.declaration frame false assignment tag).shape =
        Shape.classify session.classes false assignment.value := rfl
    simp only [Bool.false_eq_true, ↓reduceIte, shape]
    generalize Shape.classify session.classes false assignment.value = shape
    cases assignment.value with
    | none => simp [Action.statement, Action.call?]
    | some value =>
      simp only [Option.map_some, Option.elim_some, valued]
      rfl

/-- Entering a node either opens a block, with its header, or is plain. -/
theorem enterNode_calls {session : Session} {node : Node} {actions : List Action}
    (planned : session.enterNode node = .ok actions) :
    (session.opensBlock node = true ∧
        ∃ header, actions.filterMap Action.call? = headerCalls header) ∨
      (session.opensBlock node = false ∧ PlainEntry node (actions.filterMap Action.call?)) := by
  have other : ∀ {content}, node.content = content → (∀ segments, content ≠ .chain segments) →
      node.kind ≠ .classAccess := by
    rintro _ rfl different chain
    obtain ⟨segments, same⟩ := node.content_of_kind.2 chain
    exact different segments same
  unfold enterNode at planned
  unfold opensBlock
  cases content : node.content with
  | package path =>
    simp only [content] at planned
    cases planned
    unfold enterPackage
    cases session.inPackage with
    | true => exact .inr ⟨rfl, .silent (other content (by simp))⟩
    | false => exact .inl ⟨rfl, _, rfl⟩
  | function function =>
    simp only [content, enterFunction] at planned
    cases enclosing : session.scopes.enclosingClass? with
    | none =>
      simp only [enclosing] at planned
      cases planned
      exact .inr ⟨rfl, .silent (other content (by simp))⟩
    | some frame =>
      simp only [enclosing] at planned
      obtain ⟨header, -, opened⟩ := bind_eq_ok_iff.mp planned
      cases opened
      exact .inl ⟨rfl, header, rfl⟩
  | assignment assignment =>
    simp only [content] at planned
    obtain ⟨tag, -, planned⟩ := bind_eq_ok_iff.mp planned
    refine .inr ⟨rfl, ?_⟩
    rcases scopes : session.scopes with _ | ⟨frame, outer⟩ <;> rw [scopes] at planned <;>
      cases planned
    · exact .silent (other content (by simp))
    · rw [assign_calls, assignmentCall]
      split
      · rename_i completed
        exact .opening _ (other content (by simp)) completed
      · exact .statement _
  | print values newline =>
    simp only [content] at planned
    cases planned
    refine .inr ⟨rfl, ?_⟩
    unfold enterPrint
    extract_lets written
    split
    · exact .silent (other content (by simp))
    · exact .statement _
  | returnStatement value =>
    simp only [content] at planned
    cases planned
    refine .inr ⟨rfl, ?_⟩
    unfold enterReturn
    split
    · rename_i completed
      exact .opening _ (other content (by simp)) completed
    · cases value <;> exact .statement _
  | chain segments =>
    simp only [content] at planned
    cases planned
    refine .inr ⟨rfl, ?_⟩
    rw [enterChain, List.filterMap_append, filterMap_call?_notes]
    exact .statement _
  | importPath | call =>
    simp only [content] at planned
    cases planned
    exact .inr ⟨rfl, .statement _⟩
  | classBody | ifBranch | elseIfBranch | elseBranch =>
    simp only [content] at planned
    cases planned
    exact .inl ⟨rfl, _, rfl⟩
  | importBlock | accessBlock | staticBlock =>
    simp only [content] at planned
    cases planned
    exact .inr ⟨rfl, .silent (other content (by simp))⟩

/-- Whether a node closes a block when it is left. A function does so if its header was
written. -/
def closesBlock (session : Session) (node : Node) : Bool :=
  match node.content with
  | .classBody _ | .ifBranch _ | .elseIfBranch _ | .elseBranch => true
  | .function _ => session.scopes.head?.any (·.emitted)
  | _ => false

/-- Leaving a node closes a block or asks nothing of the emitter. -/
theorem plannedCalls_exit (session : Session) (node : Node) :
    session.plannedCalls (.exit (.inner node)) =
      if session.closesBlock node then footerCalls else [] := by
  unfold plannedCalls plan closesBlock
  simp only [exitNode]
  cases node.content with
  | function function =>
    simp only [exitFunction]
    rcases session.scopes with _ | ⟨⟨kind, name, declared, emitted⟩, outer⟩
    · rfl
    · cases emitted <;> rfl
  | package | importBlock | importPath | classBody | accessBlock | staticBlock | assignment | print
  | returnStatement | ifBranch | elseIfBranch | elseBranch | call | chain => rfl

/-- Entering a node successfully either opens a block, with its header, or is plain. -/
theorem plannedCalls_enter {session next : Session} {node : Node}
    (entered : session.visit (.enter (.inner node)) = (.ok (), next)) :
    (session.opensBlock node = true ∧
        ∃ header, session.plannedCalls (.enter (.inner node)) = headerCalls header) ∨
      (session.opensBlock node = false ∧
        PlainEntry node (session.plannedCalls (.enter (.inner node)))) := by
  obtain ⟨actions, planned, -⟩ := visit_eq_ok_iff.mp entered
  have calls := enterNode_calls planned
  simp only [plannedCalls, planned]
  exact calls

/-- No line is left open between two sessions: they are both pretty, and if the first is at
the start of a line, so is the second. -/
structure ClosesLines (session final : Session) : Prop where
  laysOut : LaysOut final
  kept : session.emitter.atLineStart = true → final.emitter.atLineStart = true

/-- No line is left open by subtrees beside each other if none is by each of them, and
one of them that ends at the start of a line is enough for all to end there. -/
theorem closesLines_flatMap {nodes : List Node}
    (each : ∀ node ∈ nodes, ∀ session final, LaysOut session →
      listener.run node.visits session = (.ok (), final) →
      ClosesLines session final ∧
        (node.kind = .classAccess → final.emitter.atLineStart = true))
    {session final : Session} (laysOut : LaysOut session)
    (walked : listener.run (nodes.flatMap Node.visits) session = (.ok (), final)) :
    ClosesLines session final ∧
      (nodes.any (·.kind == .classAccess) = true → final.emitter.atLineStart = true) := by
  induction nodes generalizing session with
  | nil =>
    cases walked
    exact ⟨⟨laysOut, id⟩, by simp⟩
  | cons node rest inductionHypothesis =>
    rw [List.flatMap_cons] at walked
    obtain ⟨middle, passed, walked⟩ := listener.run_append_ok_iff.mp walked
    obtain ⟨first, chain⟩ := each node (by simp) session middle laysOut passed
    obtain ⟨others, chains⟩ := inductionHypothesis
      (fun other member => each other (by simp [member])) first.laysOut walked
    refine ⟨⟨others.laysOut, fun start => others.kept (first.kept start)⟩, fun some => ?_⟩
    rw [List.any_cons, Bool.or_eq_true, beq_iff_eq] at some
    rcases some with here | later
    · exact others.kept (chain here)
    · exact chains later

/-- No line is left open by a walk through a subtree; if its root is a chain, the walk ends
at the start of a line in any case. -/
theorem closesLines_visits (node : Node) {session final : Session} (laysOut : LaysOut session)
    (walked : listener.run node.visits session = (.ok (), final)) :
    ClosesLines session final ∧
      (node.kind = .classAccess → final.emitter.atLineStart = true) := by
  induction node using Node.byChildren generalizing session final with
  | step node inductionHypothesis =>
    obtain ⟨inner, last, entered, passed, left⟩ := listener.run_visits_ok_iff.mp walked
    rw [call_listener] at entered left
    have laysOutInner := laysOut.visit entered
    obtain ⟨below, chains⟩ := closesLines_flatMap
      (fun child member session final => @inductionHypothesis child member session final)
      laysOutInner passed
    have laysOutFinal := below.laysOut.visit left
    obtain ⟨enteredEmitter, -⟩ := emitter_of_visit laysOut.unlimited entered
    obtain ⟨leftEmitter, -⟩ := emitter_of_visit below.laysOut.unlimited left
    -- Leaving keeps the start of a line: it asks nothing, or ends a line itself.
    have leaving : last.emitter.atLineStart = true → final.emitter.atLineStart = true := by
      intro start
      rw [leftEmitter, plannedCalls_exit]
      split
      · exact atLineStart_after_footer below.laysOut.pretty
      · exact start
    rcases plannedCalls_enter entered with ⟨-, header, calls⟩ | ⟨-, plain⟩
    · have start : inner.emitter.atLineStart = true := by
        rw [enteredEmitter, calls]
        exact atLineStart_after_header laysOut.pretty header
      exact ⟨⟨laysOutFinal, fun _ => leaving (below.kept start)⟩,
        fun _ => leaving (below.kept start)⟩
    · generalize session.plannedCalls (.enter (.inner node)) = calls at plain enteredEmitter
      cases plain with
      | silent other =>
        have start : inner.emitter = session.emitter := enteredEmitter
        exact ⟨⟨laysOutFinal, fun before => leaving (below.kept (start ▸ before))⟩,
          fun chain => absurd chain other⟩
      | statement text =>
        have start : inner.emitter.atLineStart = true := by
          rw [enteredEmitter]
          exact Emitter.atLineStart_next laysOut.pretty text Nat.one_pos true
        exact ⟨⟨laysOutFinal, fun _ => leaving (below.kept start)⟩,
          fun _ => leaving (below.kept start)⟩
      | opening text other completed =>
        exact ⟨⟨laysOutFinal, fun _ => leaving (chains completed)⟩,
          fun chain => absurd chain other⟩

end Session

end Treescribe
