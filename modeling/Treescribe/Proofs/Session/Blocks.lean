import Treescribe.Proofs.Session.Lines
import Treescribe.Proofs.Session.Scopes

/-!
# Blocks of pretty text

A block is opened by one hook and closed by another: that of the same node on the way out,
or that of the program for a namespace. `Balanced` says of the calls of an emitter that
every block which is opened is closed again, within the block around it, by a brace on a
line of its own under the header. The calls of a whole transcription are balanced if
packages stand on top of the program only.
-/

namespace Treescribe

/-- Whether a call is a write that neither opens nor closes a block: it ends a statement or
leaves its line open. -/
def Call.isLine : Call → Bool
  | .write _ newlines terminated => terminated || newlines == 0
  | _ => false

/-- A closing brace belongs under the header that was written by `opened`: the indentation is
taken back by `dedented`, and the brace is written by `closed` on a line of its own, as far
in as the header. -/
structure ClosesUnder (opened dedented closed : Emitter) : Prop where
  raised : 0 < dedented.depth
  fresh : closed.sink.text.toList.getLast? = some '\n'
  brace : closed.laidOut "\x7d" 1 false =
    Emitter.repeated (4 * opened.depth) ' ' ++ "\x7d" ++ "\n"

/-- Calls in which every block is closed behind its header and what stands in it. -/
inductive Balanced : List Emission → Prop where
  | nil : Balanced []
  | line {emission : Emission} {rest : List Emission} (plain : emission.call.isLine = true)
      (after : Balanced rest) : Balanced (emission :: rest)
  | block {opened indented dedented closed : Emitter} {header : String}
      {inner rest : List Emission} (inside : Balanced inner)
      (closing : ClosesUnder opened dedented closed) (after : Balanced rest) :
      Balanced (⟨opened, .write (header ++ " \x7b") 1 false⟩ :: ⟨indented, .indent⟩ :: inner ++
        ⟨dedented, .dedent⟩ :: ⟨closed, .write "\x7d" 1 false⟩ :: rest)

namespace Balanced

/-- Balanced calls behind balanced calls are balanced. -/
theorem append {first second : List Emission} (before : Balanced first)
    (behind : Balanced second) : Balanced (first ++ second) := by
  induction before with
  | nil => exact behind
  | line plain _ inductionHypothesis => exact .line plain inductionHypothesis
  | block inside closing _ _ inductionHypothesis =>
    simpa only [List.cons_append, List.append_assoc] using block inside closing inductionHypothesis

/-- Balanced calls never take indentation back where there is none. -/
theorem raised {emissions : List Emission} (balanced : Balanced emissions) {emission : Emission}
    (member : emission ∈ emissions) (dedents : emission.call = .dedent) :
    0 < emission.emitter.depth := by
  induction balanced with
  | nil => cases member
  | line plain _ inductionHypothesis =>
    rcases List.mem_cons.mp member with rfl | member
    · rw [dedents] at plain
      cases plain
    · exact inductionHypothesis member
  | block inside closing _ insideRaised afterRaised =>
    simp only [List.cons_append, List.mem_cons, List.mem_append] at member
    rcases member with rfl | rfl | member | rfl | rfl | member
    · cases dedents
    · cases dedents
    · exact insideRaised member
    · exact closing.raised
    · cases dedents
    · exact afterRaised member

end Balanced

namespace Emitter

/-- Dedenting goes one level out. -/
@[simp] theorem next_dedent (emitter : Emitter) :
    emitter.next .dedent = { emitter with depth := emitter.depth - 1 } := rfl

/-- A write stays at its level. -/
@[simp] theorem next_write_depth (emitter : Emitter) (text : String) (newlines : Nat)
    (terminated : Bool) :
    (emitter.next (.write text newlines terminated)).depth = emitter.depth := by
  rw [next_write]

/-- One level in at the start of a line, a block can be closed under a header one level
out. -/
theorem closesUnder {opened last : Emitter} (pretty : last.layout = .pretty)
    (level : last.depth = opened.depth + 1) (start : last.atLineStart = true)
    (ends : last.EndsLine) : ClosesUnder opened last (last.next .dedent) where
  raised := by omega
  fresh := ends start
  brace := by
    have back : last.depth - 1 = opened.depth := by omega
    simp [laidOut, indentation, pretty, start, back]
    rfl

/-- The calls of a header, on a sink without a limit. -/
theorem emissions_header {emitter : Emitter} (unlimited : emitter.sink.limit = none)
    (header : String) :
    emitter.emissions (Session.headerCalls header) =
      [⟨emitter, .write (header ++ " \x7b") 1 false⟩,
        ⟨emitter.next (.write (header ++ " \x7b") 1 false), .indent⟩] := by
  simp only [Session.headerCalls, emissions, perform_of_unlimited unlimited]
  rfl

/-- The calls that close a block, on a sink without a limit. -/
theorem emissions_footer {emitter : Emitter} (unlimited : emitter.sink.limit = none) :
    emitter.emissions Session.footerCalls =
      [⟨emitter, .dedent⟩, ⟨emitter.next .dedent, .write "\x7d" 1 false⟩] := by
  have still : (emitter.next .dedent).sink.limit = none := by rw [next_limit, unlimited]
  simp only [Session.footerCalls, emissions, perform_of_unlimited unlimited,
    perform_of_unlimited still]

end Emitter

namespace Session

/-- Only packages open a namespace. -/
theorem inPackage_enter {situation : Situation} {node : Node} (other : node.kind ≠ .package) :
    (situation.enter node).inPackage = situation.inPackage := by
  unfold Situation.enter
  cases content : node.content with
  | package path => exact absurd (by simp [Node.kind, content, Content.kind]) other
  | assignment assignment =>
    dsimp only
    split <;> rfl
  | importBlock | importPath | classBody | function | accessBlock | staticBlock | print
  | returnStatement | ifBranch | elseIfBranch | elseBranch | call | chain => rfl

/-- No node closes the namespace. -/
theorem inPackage_exit (situation : Situation) (node : Node) :
    (situation.exit node).inPackage = situation.inPackage := by
  unfold Situation.exit
  cases node.content <;> rfl

/-- A node closes a block on the way out if it opened one on the way in, packages aside. -/
theorem closesBlock_eq_opensBlock {session last : Session} {node : Node} {above : List Node}
    (other : node.kind ≠ .package) (around : ScopedBy above session)
    (inside : ScopedBy (node :: above) last) :
    last.closesBlock node = session.opensBlock node := by
  unfold closesBlock opensBlock
  cases content : node.content with
  | package path => exact absurd (by simp [Node.kind, content, Content.kind]) other
  | function function =>
    have innermost := congrArg List.head? inside
    rw [Node.bodies, Node.body?, content, bodies, List.head?_map] at innermost
    obtain ⟨frame, first, bare⟩ := Option.map_eq_some_iff.mp innermost
    have emitted : frame.emitted = above.any Node.isClass := congrArg Frame.emitted bare
    rw [first, around.inClass, ← emitted]
    rfl
  | importBlock | importPath | classBody | accessBlock | staticBlock | assignment | print
  | returnStatement | ifBranch | elseIfBranch | elseBranch | call | chain => rfl

/-- A part of a walk that has opened and closed its blocks: it ends as deep as it began,
among the same bodies, in the same namespace. -/
structure Enclosed (above : List Node) (session : Session) (emissions : List Emission)
    (final : Session) : Prop where
  balanced : Balanced emissions
  depth : final.emitter.depth = session.emitter.depth
  settled : ScopedBy above final
  laysOut : LaysOut final
  inPackage : final.inPackage = session.inPackage

/-- Nothing is enclosed. -/
theorem Enclosed.nil {above : List Node} {session : Session} (settled : ScopedBy above session)
    (laysOut : LaysOut session) : Enclosed above session [] session :=
  ⟨.nil, rfl, settled, laysOut, rfl⟩

/-- Enclosed parts after each other are enclosed together. -/
theorem Enclosed.append {above : List Node} {session middle final : Session}
    {first second : List Emission} (before : Enclosed above session first middle)
    (behind : Enclosed above middle second final) :
    Enclosed above session (first ++ second) final where
  balanced := before.balanced.append behind.balanced
  depth := behind.depth.trans before.depth
  settled := behind.settled
  laysOut := behind.laysOut
  inPackage := behind.inPackage.trans before.inPackage

/-- Subtrees beside each other are enclosed if each of them is. -/
theorem enclosed_flatMap {above nodes : List Node}
    (each : ∀ node ∈ nodes, ∀ session final, ScopedBy above session → LaysOut session →
      listener.run node.visits session = (.ok (), final) →
      Enclosed above session (session.emissionsAlong node.visits) final)
    {session final : Session} (settled : ScopedBy above session) (laysOut : LaysOut session)
    (walked : listener.run (nodes.flatMap Node.visits) session = (.ok (), final)) :
    Enclosed above session (session.emissionsAlong (nodes.flatMap Node.visits)) final := by
  induction nodes generalizing session with
  | nil =>
    cases walked
    exact .nil settled laysOut
  | cons node rest inductionHypothesis =>
    rw [List.flatMap_cons] at walked ⊢
    obtain ⟨middle, passed, walked⟩ := listener.run_append_ok_iff.mp walked
    have first := each node (by simp) session middle settled laysOut passed
    have others := inductionHypothesis (fun other member => each other (by simp [member]))
      first.settled first.laysOut walked
    rw [emissionsAlong_append passed]
    exact first.append others

/-- A walk from one header to a place one level in where the block can be closed. -/
structure Opened (opened : Emitter) (session : Session) : Prop where
  level : session.emitter.depth = opened.depth + 1
  start : session.emitter.atLineStart = true
  ends : session.emitter.EndsLine

/-- Behind a header, a block is open. -/
theorem opened_after_header {session inner : Session} (laysOut : LaysOut session)
    {header : String} (reached : inner.emitter = session.emitter.after (headerCalls header)) :
    Opened session.emitter inner where
  level := by
    rw [reached]
    exact congrArg (· + 1) (Emitter.next_write_depth ..)
  start := by
    rw [reached]
    exact atLineStart_after_header laysOut.pretty header
  ends := by
    rw [reached]
    exact Emitter.endsLine_next laysOut.unlimited laysOut.pretty _ Nat.one_pos false

/-- A block stays open through subtrees that are enclosed. -/
theorem Opened.through {opened : Emitter} {inner last : Session} {above nodes : List Node}
    (isOpen : Opened opened inner) (laysOut : LaysOut inner)
    (walked : listener.run (nodes.flatMap Node.visits) inner = (.ok (), last))
    (enclosed : Enclosed above inner (inner.emissionsAlong (nodes.flatMap Node.visits)) last) :
    Opened opened last where
  level := enclosed.depth.trans isOpen.level
  start := by
    have lines := closesLines_flatMap
      (fun node _ session final => closesLines_visits node) laysOut walked
    exact lines.1.kept isOpen.start
  ends := kept_run Emitter.EndsLine.next laysOut.unlimited isOpen.ends walked

/-- The calls that close an open block, behind those that opened it and what stands in it,
are balanced and lead back to the level of the header. -/
theorem Opened.close {opened indented : Emitter} {header : String} {inner : List Emission}
    {last : Session} (isOpen : Opened opened last) (laysOut : LaysOut last)
    (balanced : Balanced inner) :
    Balanced (⟨opened, .write (header ++ " \x7b") 1 false⟩ :: ⟨indented, .indent⟩ :: inner ++
        last.emitter.emissions footerCalls) ∧
      (last.emitter.after footerCalls).depth = opened.depth := by
  have closing := Emitter.closesUnder laysOut.pretty isOpen.level isOpen.start isOpen.ends
  have back : last.emitter.depth - 1 = opened.depth := by
    have level := isOpen.level
    omega
  constructor
  · rw [Emitter.emissions_footer laysOut.unlimited]
    exact .block balanced closing .nil
  · exact (Emitter.next_write_depth ..).trans back

/-- A plain entry is balanced and stays at its level. -/
theorem PlainEntry.balanced {node : Node} {calls : List Call} (plain : PlainEntry node calls)
    {emitter : Emitter} (unlimited : emitter.sink.limit = none) :
    Balanced (emitter.emissions calls) ∧ (emitter.after calls).depth = emitter.depth := by
  cases plain with
  | silent => exact ⟨.nil, rfl⟩
  | statement text =>
    simp only [Emitter.emissions, Emitter.perform_of_unlimited unlimited]
    exact ⟨.line rfl .nil, Emitter.next_write_depth ..⟩
  | opening text =>
    simp only [Emitter.emissions, Emitter.perform_of_unlimited unlimited]
    exact ⟨.line rfl .nil, Emitter.next_write_depth ..⟩

/-- A walk through a subtree without packages is enclosed. -/
theorem enclosed_visits (node : Node) (free : ∀ other ∈ node.preorder, other.kind ≠ .package)
    {above : List Node} {session final : Session} (settled : ScopedBy above session)
    (laysOut : LaysOut session) (walked : listener.run node.visits session = (.ok (), final)) :
    Enclosed above session (session.emissionsAlong node.visits) final := by
  induction node using Node.byChildren generalizing above session final with
  | step node inductionHypothesis =>
    obtain ⟨inner, last, entered, passed, left⟩ := listener.run_visits_ok_iff.mp walked
    have settledInner := lexical_scopedBy.enter settled entered
    rw [call_listener] at entered
    have laysOutInner := laysOut.visit entered
    rw [Node.preorder_eq] at free
    have other : node.kind ≠ .package := free node (by simp)
    have freeBelow : ∀ child ∈ node.children, ∀ other ∈ child.preorder, other.kind ≠ .package :=
      fun child member other below =>
        free other (List.mem_cons_of_mem _ (List.mem_flatMap.mpr ⟨child, member, below⟩))
    have below := enclosed_flatMap
      (fun child member session final => @inductionHypothesis child member
        (freeBelow child member) (node :: above) session final)
      settledInner laysOutInner passed
    have settledFinal := lexical_scopedBy.exit below.settled left
    rw [call_listener] at left
    have laysOutFinal := below.laysOut.visit left
    have inPackage : final.inPackage = session.inPackage := by
      have leaving := congrArg Situation.inPackage (situation_of_visit left)
      have entering := congrArg Situation.inPackage (situation_of_visit entered)
      rw [Situation.after, inPackage_exit] at leaving
      rw [Situation.after, inPackage_enter other] at entering
      exact leaving.trans (below.inPackage.trans entering)
    obtain ⟨enteredEmitter, enteredCalls⟩ := emitter_of_visit laysOut.unlimited entered
    obtain ⟨leftEmitter, leftCalls⟩ := emitter_of_visit below.laysOut.unlimited left
    have closes := closesBlock_eq_opensBlock other settled below.settled
    rw [plannedCalls_exit, closes] at leftEmitter leftCalls
    rw [emissionsAlong_visits entered passed left, enteredCalls, leftCalls]
    rcases plannedCalls_enter entered with ⟨opens, header, calls⟩ | ⟨opens, plain⟩
    · rw [opens, if_pos rfl] at leftEmitter ⊢
      rw [calls] at enteredEmitter ⊢
      have isOpen := (opened_after_header laysOut enteredEmitter).through laysOutInner passed below
      obtain ⟨balanced, level⟩ := isOpen.close below.laysOut below.balanced
      rw [Emitter.emissions_header laysOut.unlimited]
      exact ⟨balanced, leftEmitter ▸ level, settledFinal, laysOutFinal, inPackage⟩
    · rw [opens, if_neg (by simp)] at leftEmitter ⊢
      obtain ⟨balanced, level⟩ := plain.balanced laysOut.unlimited
      have depth : final.emitter.depth = session.emitter.depth := by
        rw [leftEmitter]
        exact below.depth.trans (enteredEmitter ▸ level)
      refine ⟨?_, depth, settledFinal, laysOutFinal, inPackage⟩
      rw [Emitter.emissions, List.append_nil]
      exact balanced.append below.balanced

/-- What is asked of the emitter on the way into a package: the header of a namespace, unless
one is open. -/
theorem plannedCalls_package {node : Node} {path : List String}
    (content : node.content = .package path) (session : Session) :
    session.plannedCalls (.enter (.inner node)) =
      if session.inPackage then [] else headerCalls ("namespace " ++ ".".intercalate path) := by
  simp only [plannedCalls, plan, enterNode, content, enterPackage]
  cases session.inPackage <;> rfl

/-- A walk through the nodes on top of a program: as yet all its blocks are closed, or all
but that of the namespace, which is open since the first package. -/
inductive Unfolding (depth : Nat) : List Emission → Session → Prop where
  | outside {emissions : List Emission} {session : Session} (balanced : Balanced emissions)
      (level : session.emitter.depth = depth) (closed : session.inPackage = false) :
      Unfolding depth emissions session
  | inside {before inner : List Emission} {opened indented : Emitter} {header : String}
      {session : Session} (first : Balanced before) (balanced : Balanced inner)
      (base : opened.depth = depth) (isOpen : Opened opened session)
      (inPackage : session.inPackage = true) :
      Unfolding depth
        (before ++ ⟨opened, .write (header ++ " \x7b") 1 false⟩ :: ⟨indented, .indent⟩ :: inner)
        session

/-- Subtrees that are enclosed neither open nor close the namespace. -/
theorem Unfolding.enclosed {depth : Nat} {emissions : List Emission} {session final : Session}
    {above nodes : List Node} (unfolding : Unfolding depth emissions session)
    (laysOut : LaysOut session)
    (walked : listener.run (nodes.flatMap Node.visits) session = (.ok (), final))
    (enclosed : Enclosed above session (session.emissionsAlong (nodes.flatMap Node.visits)) final) :
    Unfolding depth (emissions ++ session.emissionsAlong (nodes.flatMap Node.visits)) final := by
  cases unfolding with
  | outside balanced level closed =>
    exact .outside (balanced.append enclosed.balanced) (enclosed.depth.trans level)
      (enclosed.inPackage.trans closed)
  | inside first balanced base isOpen inPackage =>
    rw [List.append_assoc, List.cons_append, List.cons_append]
    exact .inside first (balanced.append enclosed.balanced) base
      (isOpen.through laysOut walked enclosed) (enclosed.inPackage.trans inPackage)

/-- A visit without calls changes nothing for the blocks. -/
theorem Unfolding.silent {depth : Nat} {emissions : List Emission} {session final : Session}
    (unfolding : Unfolding depth emissions session) (same : final.emitter = session.emitter)
    (inPackage : final.inPackage = session.inPackage) : Unfolding depth emissions final := by
  cases unfolding with
  | outside balanced level closed =>
    exact .outside balanced (same ▸ level) (inPackage.trans closed)
  | inside first balanced base isOpen opened =>
    exact .inside first balanced base
      ⟨same ▸ isOpen.level, same ▸ isOpen.start, same ▸ isOpen.ends⟩ (inPackage.trans opened)

/-- Entering a package opens the namespace if it is not open yet. -/
theorem Unfolding.enterPackage {depth : Nat} {emissions : List Emission} {session inner : Session}
    {node : Node} {path : List String} (content : node.content = .package path)
    (unfolding : Unfolding depth emissions session) (laysOut : LaysOut session)
    (entered : session.visit (.enter (.inner node)) = (.ok (), inner)) :
    Unfolding depth (emissions ++ session.emissions (.enter (.inner node))) inner := by
  obtain ⟨reached, calls⟩ := emitter_of_visit laysOut.unlimited entered
  have opens : inner.inPackage = true := by
    have entering := congrArg Situation.inPackage (situation_of_visit entered)
    simp only [Situation.after, Situation.enter, content] at entering
    exact entering
  rw [plannedCalls_package content] at reached calls
  rw [calls]
  cases unfolding with
  | outside balanced level closed =>
    rw [closed, if_neg (by simp)] at reached ⊢
    rw [Emitter.emissions_header laysOut.unlimited]
    exact .inside balanced .nil level (opened_after_header laysOut reached) opens
  | inside first balanced base isOpen inPackage =>
    rw [inPackage, if_pos rfl] at reached ⊢
    rw [Emitter.emissions, List.append_nil]
    exact (Unfolding.inside first balanced base isOpen inPackage).silent reached
      (opens.trans inPackage.symm)

/-- A walk through a subtree on top of a program, below whose root there are no packages. -/
theorem Unfolding.visits {depth : Nat} {emissions : List Emission} {session final : Session}
    {node : Node}
    (free : ∀ other ∈ node.children.flatMap Node.preorder, other.kind ≠ .package)
    (unfolding : Unfolding depth emissions session) (settled : ScopedBy [] session)
    (laysOut : LaysOut session) (walked : listener.run node.visits session = (.ok (), final)) :
    Unfolding depth (emissions ++ session.emissionsAlong node.visits) final := by
  by_cases package : node.kind = .package
  · obtain ⟨path, content⟩ := node.content_of_kind.1 package
    obtain ⟨inner, last, entered, passed, left⟩ := listener.run_visits_ok_iff.mp walked
    have settledInner := lexical_scopedBy.enter settled entered
    rw [call_listener] at entered left
    have laysOutInner := laysOut.visit entered
    have below := enclosed_flatMap
      (fun child member session final => enclosed_visits child
        fun other within => free other (List.mem_flatMap.mpr ⟨child, member, within⟩))
      settledInner laysOutInner passed
    obtain ⟨reached, calls⟩ := emitter_of_visit below.laysOut.unlimited left
    have closes : last.closesBlock node = false := by simp only [closesBlock, content]
    rw [plannedCalls_exit, closes, if_neg (by simp)] at reached calls
    have inPackage : final.inPackage = last.inPackage := by
      have leaving := congrArg Situation.inPackage (situation_of_visit left)
      rwa [Situation.after, inPackage_exit] at leaving
    rw [emissionsAlong_visits entered passed left, calls, Emitter.emissions, List.append_nil,
      ← List.append_assoc]
    exact ((unfolding.enterPackage content laysOut entered).enclosed laysOutInner passed
      below).silent reached inPackage
  · have whole : ∀ other ∈ node.preorder, other.kind ≠ .package := by
      intro other member
      rw [Node.preorder_eq] at member
      rcases List.mem_cons.mp member with rfl | below
      · exact package
      · exact free other below
    have single : [node].flatMap Node.visits = node.visits := List.flatMap_singleton ..
    have enclosed := enclosed_visits node whole settled laysOut walked
    rw [← single] at walked enclosed ⊢
    exact unfolding.enclosed laysOut walked enclosed

end Session

/-- All packages of a program stand on top of it: there are none below its children. -/
def Program.PackagesOnTop (program : Program) : Prop :=
  ∀ child ∈ program.children, ∀ node ∈ child.children.flatMap Node.preorder,
    node.kind ≠ .package

namespace Session

/-- A walk through subtrees on top of a program, below whose roots there are no packages. -/
theorem Unfolding.flatMap {depth : Nat} {emissions : List Emission} {nodes : List Node}
    (free : ∀ node ∈ nodes, ∀ other ∈ node.children.flatMap Node.preorder, other.kind ≠ .package)
    {session final : Session} (unfolding : Unfolding depth emissions session)
    (settled : ScopedBy [] session) (laysOut : LaysOut session)
    (walked : listener.run (nodes.flatMap Node.visits) session = (.ok (), final)) :
    Unfolding depth (emissions ++ session.emissionsAlong (nodes.flatMap Node.visits)) final ∧
      ScopedBy [] final ∧ LaysOut final := by
  induction nodes generalizing emissions session with
  | nil =>
    cases walked
    rw [List.flatMap_nil, emissionsAlong, Listener.trace, List.flatMap_nil, List.append_nil]
    exact ⟨unfolding, settled, laysOut⟩
  | cons node rest inductionHypothesis =>
    rw [List.flatMap_cons] at walked ⊢
    obtain ⟨middle, passed, walked⟩ := listener.run_append_ok_iff.mp walked
    have first := unfolding.visits (free node (by simp)) settled laysOut passed
    have settledMiddle : ScopedBy [] middle := by
      rw [← Node.map_placedVisits []] at passed
      exact (lexical_scopedBy.kept [] node session settled).2 middle passed
    have laysOutMiddle := (closesLines_visits node laysOut passed).1.laysOut
    rw [emissionsAlong_append passed, ← List.append_assoc]
    exact inductionHypothesis (fun other member => free other (by simp [member])) first
      settledMiddle laysOutMiddle walked

/-- Leaving the program closes the namespace, if it is open. -/
theorem Unfolding.exitRoot {depth : Nat} {emissions : List Emission} {session final : Session}
    {program : Program} (unfolding : Unfolding depth emissions session) (laysOut : LaysOut session)
    (left : session.visit (.exit (.root program)) = (.ok (), final)) :
    Balanced (emissions ++ session.emissions (.exit (.root program))) ∧
      final.emitter.depth = depth := by
  obtain ⟨reached, calls⟩ := emitter_of_visit laysOut.unlimited left
  rw [reached, calls]
  cases unfolding with
  | outside balanced level closed =>
    have planned : session.plannedCalls (.exit (.root program)) = [] := by
      simp [plannedCalls, plan, closed]
    rw [planned, Emitter.emissions, List.append_nil]
    exact ⟨balanced, level⟩
  | inside first balanced base isOpen inPackage =>
    have planned : session.plannedCalls (.exit (.root program)) = footerCalls := by
      simp only [plannedCalls, plan, inPackage, if_true]
      rfl
    obtain ⟨closed, level⟩ := isOpen.close laysOut balanced
    rw [planned, List.append_assoc]
    exact ⟨first.append closed, level.trans base⟩

/-- Entering the program writes lines or nothing, and opens no block. -/
theorem unfolding_enterRoot {session inner : Session} {program : Program}
    (laysOut : LaysOut session) (closed : session.inPackage = false)
    (entered : session.visit (.enter (.root program)) = (.ok (), inner)) :
    Unfolding session.emitter.depth (session.emissions (.enter (.root program))) inner := by
  obtain ⟨reached, calls⟩ := emitter_of_visit laysOut.unlimited entered
  have inPackage : inner.inPackage = false :=
    (congrArg Situation.inPackage (situation_of_visit entered)).trans closed
  have planned : session.plannedCalls (.enter (.root program)) =
      if session.preamble then
        [.write "using System" 1 true, .write "using System.Collections.Generic" 2 true]
      else [] := by
    unfold plannedCalls plan
    cases session.preamble <;> rfl
  rw [planned] at reached calls
  rw [calls]
  split at reached
  · rw [if_pos ‹_›]
    refine .outside ?_ ?_ inPackage
    · have unlimited := laysOut.unlimited
      simp only [Emitter.emissions, Emitter.perform_of_unlimited, Emitter.next_limit, unlimited]
      exact .line rfl (.line rfl .nil)
    · rw [reached]
      exact (Emitter.next_write_depth ..).trans (Emitter.next_write_depth ..)
  · rw [if_neg ‹_›]
    exact .outside .nil (congrArg Emitter.depth reached) inPackage

/-- The calls of a walk through a program whose packages stand on top of it are balanced, and
it ends as deep as it began and outside all scopes. -/
theorem balanced_visits {program : Program} (onTop : program.PackagesOnTop)
    {session final : Session} (settled : ScopedBy [] session) (laysOut : LaysOut session)
    (closed : session.inPackage = false)
    (walked : listener.run program.visits session = (.ok (), final)) :
    Balanced (session.emissionsAlong program.visits) ∧
      final.emitter.depth = session.emitter.depth ∧ final.scopes = [] := by
  rw [Program.visits, Node.visitsAll_eq_flatMap, List.cons_append] at walked ⊢
  obtain ⟨inner, entered, walked⟩ := listener.run_cons_ok_iff.mp walked
  obtain ⟨last, passed, walked⟩ := listener.run_append_ok_iff.mp walked
  obtain ⟨_, left, ended⟩ := listener.run_cons_ok_iff.mp walked
  cases ended
  have settledInner := lexical_scopedBy.enterRoot settled entered
  rw [call_listener] at entered left
  have opening := unfolding_enterRoot laysOut closed entered
  obtain ⟨unfolding, settledLast, laysOutLast⟩ :=
    opening.flatMap onTop settledInner (laysOut.visit entered) passed
  obtain ⟨balanced, level⟩ := unfolding.exitRoot laysOutLast left
  refine ⟨?_, level, ?_⟩
  · rw [emissionsAlong_cons entered, emissionsAlong_append passed, emissionsAlong_cons left,
      ← List.append_assoc, ← List.append_assoc]
    exact balanced.append .nil
  · have outside : final.scopes = last.scopes := congrArg Situation.scopes (situation_of_visit left)
    rw [outside]
    exact List.map_eq_nil_iff.mp settledLast

end Session

namespace Program

/-- Blocks are balanced: if the packages of a program stand on top of it and its pretty
transcription into a sink without a limit succeeds, every block that is opened, the
namespace included, is closed under its header by a brace on a line of its own, indentation
is never taken back where there is none, and none is left at the end, nor any scope. -/
theorem blocks_balanced (program : Program) (onTop : program.PackagesOnTop) (preamble : Bool)
    (written : String)
    (succeeds : (program.transcribe ⟨.pretty, preamble⟩ { text := written }).result = .ok ()) :
    Balanced (program.emissions ⟨.pretty, preamble⟩ { text := written }) ∧
      (∀ emission ∈ program.emissions ⟨.pretty, preamble⟩ { text := written },
        emission.call = .dedent → 0 < emission.emitter.depth) ∧
      (program.transcribe ⟨.pretty, preamble⟩ { text := written }).session.emitter.depth = 0 ∧
      (program.transcribe ⟨.pretty, preamble⟩ { text := written }).session.scopes = [] := by
  rw [transcribe_result] at succeeds
  rw [transcribe_session, emissions, Listener.calls_eq_trace]
  have walked : Session.listener.run program.visits
      (Session.start ⟨.pretty, preamble⟩ { text := written }) = (.ok (), _) :=
    Prod.ext succeeds rfl
  have settled : Session.ScopedBy [] (Session.start ⟨.pretty, preamble⟩ { text := written }) := rfl
  obtain ⟨balanced, depth, scopes⟩ :=
    Session.balanced_visits onTop settled ⟨rfl, rfl⟩ rfl walked
  exact ⟨balanced, fun emission member => balanced.raised member, depth, scopes⟩

/-- A namespace with a method that branches, a second package and a function outside all
classes. -/
def branches : Program :=
  ⟨1, [⟨2, .package ["Demo", "Parts"], []⟩,
    ⟨3, .classBody "Main",
      [⟨4, .function ⟨"run", [⟨"limit", none, none⟩], false, none⟩,
        [⟨5, .ifBranch "if limit",
            [⟨6, .returnStatement none, [⟨7, .chain [⟨"limit", none⟩], []⟩]⟩]⟩,
          ⟨8, .elseBranch, []⟩]⟩]⟩,
    ⟨9, .package ["Late"], []⟩,
    ⟨10, .function ⟨"stray", [], false, none⟩, []⟩]⟩

/-- The blocks of the branches are balanced. -/
theorem blocks_balanced_branches :
    branches.PackagesOnTop ∧ (branches.transcribe ⟨.pretty, true⟩ {}).result = .ok () ∧
      Balanced (branches.emissions ⟨.pretty, true⟩ {}) := by
  have onTop : branches.PackagesOnTop := by
    unfold PackagesOnTop
    decide
  have succeeds : (branches.transcribe ⟨.pretty, true⟩ {}).result = .ok () := by
    decide +kernel
  exact ⟨onTop, succeeds, (branches.blocks_balanced onTop true "" succeeds).1⟩

end Program

end Treescribe
