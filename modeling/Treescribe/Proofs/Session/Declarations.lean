import Treescribe.Proofs.Session.Lines
import Treescribe.Proofs.Session.Scopes
import Treescribe.Proofs.Walk.History
import Treescribe.Proofs.Walk.Places

/-!
# Names and their declarations

A name is declared in a body if it is a parameter there or was assigned there before. What
was assigned where is told by the history of the walk, in which every class or function
that is entered has a number of its own; neither other bodies around nor bodies that were
left matter, even if they are equal. So an assignment is written with modifiers and a type
exactly if it is the first of its name in its body.
-/

namespace Treescribe

/-- The names of the parameters of a function. -/
def Node.parameterNames (node : Node) : List String :=
  match node.content with
  | .function function => function.parameters.map (·.name)
  | _ => []

/-- Whether a node only holds others, and is not written itself. -/
def Node.isSilent (node : Node) : Bool :=
  match node.content with
  | .importBlock | .accessBlock _ | .staticBlock => true
  | _ => false

/-- The name that a visit assigns, with the number of the nearest class or function. -/
def PastVisit.assigned? (past : PastVisit) : Option (Nat × String) :=
  match past.visit with
  | .enter (.inner node) =>
    match node.content with
    | .assignment assignment =>
      (past.around.find? (·.node.hasBody)).map fun body => (body.number, assignment.target)
    | _ => none
  | _ => none

namespace History

/-- The classes and functions around, the nearest one first. -/
def bodies (history : History) : List Occurrence :=
  history.around.filter (·.node.hasBody)

/-- The names assigned so far, each with the number of its class or function, in order. -/
def assigned (history : History) : List (Nat × String) :=
  history.past.filterMap PastVisit.assigned?

/-- Whether a name is declared in a class or function: it is a parameter there, or was
assigned there before. -/
def declares (history : History) (body : Occurrence) (name : String) : Bool :=
  body.node.parameterNames.contains name || history.assigned.contains (body.number, name)

/-- A name is declared where it is a parameter, or was assigned. -/
theorem declares_iff {history : History} {body : Occurrence} {name : String} :
    history.declares body name = true ↔
      name ∈ body.node.parameterNames ∨ (body.number, name) ∈ history.assigned := by
  simp [declares]

/-- A visit declares the name that it assigns, and no other. -/
theorem declares_after {history : History} {visit : Visit} {body : Occurrence} {name : String} :
    (history.after visit).declares body name = true ↔
      history.declares body name = true ∨
        PastVisit.assigned? ⟨history.around, visit⟩ = some (body.number, name) := by
  have past : (history.after visit).past = history.past ++ [⟨history.around, visit⟩] := rfl
  simp [declares_iff, assigned, past, or_assoc]

/-- Entering a node puts it among the bodies around, if it has one. -/
theorem bodies_enter (history : History) (node : Node) :
    (history.after (.enter (.inner node))).bodies =
      if node.hasBody then ⟨history.past.length, node⟩ :: history.bodies else history.bodies := by
  unfold bodies after
  rw [List.filter_cons]

/-- What is assigned, is assigned in a body that was entered before. -/
theorem Orderly.assigned {history : History} (orderly : history.Orderly) {number : Nat}
    {name : String} (member : (number, name) ∈ history.assigned) :
    number < history.past.length := by
  obtain ⟨past, inPast, assigned⟩ := List.mem_filterMap.mp member
  unfold PastVisit.assigned? at assigned
  split at assigned
  · split at assigned
    · obtain ⟨body, nearest, same⟩ := Option.map_eq_some_iff.mp assigned
      cases same
      exact orderly.earlier past inPast body (List.mem_of_find?_eq_some nearest)
    · cases assigned
  · cases assigned

end History

/-- Declaring a name adds it to those declared in a frame. -/
theorem Frame.isDeclared_declare {frame : Frame} {target name : String} :
    (frame.declare target).isDeclared name = true ↔
      frame.isDeclared name = true ∨ target = name := by
  unfold declare
  split
  · rename_i declared
    refine ⟨.inl, fun either => either.elim id ?_⟩
    rintro rfl
    exact declared
  · rw [isDeclared, List.contains_cons, Bool.or_eq_true, beq_iff_eq, @eq_comm _ name, or_comm]
    rfl

namespace Session

/-- A frame agrees with a class or function that was entered: it is of its kind, and has the
names that are declared there, members of the object aside. -/
structure Describes (history : History) (frame : Frame) (body : Occurrence) : Prop where
  kind : (frame.kind == .classBody) = body.node.isClass
  declared {name : String} (other : isMemberReference name = false) :
    frame.isDeclared name = true ↔ history.declares body name = true

/-- A visit that assigns nothing in a body leaves its frame right. -/
theorem Describes.elsewhere {history : History} {frame : Frame} {body : Occurrence}
    (describes : Describes history frame body) {visit : Visit}
    (other : ∀ name, isMemberReference name = false →
      PastVisit.assigned? ⟨history.around, visit⟩ ≠ some (body.number, name)) :
    Describes (history.after visit) frame body where
  kind := describes.kind
  declared {name} plain := by
    rw [describes.declared plain, History.declares_after, or_iff_left (other name plain)]

/-- A visit that assigns a name in a body declares it in the frame. -/
theorem Describes.assign {history : History} {frame : Frame} {body : Occurrence}
    (describes : Describes history frame body) {visit : Visit} {target : String}
    (assigned : PastVisit.assigned? ⟨history.around, visit⟩ = some (body.number, target)) :
    Describes (history.after visit) (frame.declare target) body where
  kind := by
    rw [← describes.kind]
    unfold Frame.declare
    split <;> rfl
  declared {name} plain := by
    rw [Frame.isDeclared_declare, describes.declared plain, History.declares_after, assigned]
    simp

/-- A session in the middle of a walk: its frames are those of the classes and functions
around, with the names that the history tells. -/
structure Tracked (around : List Node) (history : History) (session : Session) : Prop where
  nodes : history.around.map Occurrence.node = around
  orderly : history.Orderly
  frames : List.Forall₂ (Describes history) session.scopes history.bodies

/-- Frames stay right at a visit that assigns no name of a body and enters or leaves none. -/
theorem frames_silent {history : History} {scopes : Scopes}
    (frames : List.Forall₂ (Describes history) scopes history.bodies) {visit : Visit}
    (other : ∀ number name, isMemberReference name = false →
      PastVisit.assigned? ⟨history.around, visit⟩ ≠ some (number, name)) :
    List.Forall₂ (Describes (history.after visit)) scopes history.bodies :=
  frames.imp fun _ body describes => describes.elsewhere (other body.number)

/-- An assignment declares its name in the innermost frame and leaves the others right. -/
theorem frames_assign {history : History} (orderly : history.Orderly) {scopes : Scopes}
    (frames : List.Forall₂ (Describes history) scopes history.bodies) {node : Node}
    {assignment : Assignment} (content : node.content = .assignment assignment) :
    List.Forall₂ (Describes (history.after (.enter (.inner node))))
      (scopes.declare assignment.target) history.bodies := by
  have assigned : PastVisit.assigned? ⟨history.around, .enter (.inner node)⟩ =
      history.bodies.head?.map fun body => (body.number, assignment.target) := by
    simp only [PastVisit.assigned?, content, History.bodies, List.head?_filter]
  have descending : history.bodies.Pairwise fun inner outer => outer.number < inner.number :=
    orderly.descending.filter _
  generalize history.bodies = bodies at frames assigned descending
  cases frames with
  | nil => exact .nil
  | @cons frame body outer others describes rest =>
    refine .cons (describes.assign assigned) ?_
    -- The bodies further out have other numbers, so nothing is assigned in them.
    have distinct := (List.pairwise_cons.mp descending).1
    have apart := (List.forall₂_and_left _ _).mpr ⟨distinct, List.Forall₂.flip rest⟩
    refine List.Forall₂.flip (apart.imp fun further frame ⟨earlier, describes⟩ => ?_)
    refine describes.elsewhere fun name _ same => ?_
    rw [assigned] at same
    have number : body.number = further.number := congrArg Prod.fst (Option.some.inj same)
    omega

/-- A class or function that is entered has a frame with its parameters, and the others stay
right. -/
theorem frames_open {history : History} (orderly : history.Orderly) {scopes : Scopes}
    (frames : List.Forall₂ (Describes history) scopes history.bodies) {node : Node}
    (hasBody : node.hasBody = true) {frame : Frame}
    (kind : (frame.kind == .classBody) = node.isClass)
    (declared : frame.declared = node.parameterNames) :
    List.Forall₂ (Describes (history.after (.enter (.inner node)))) (frame :: scopes)
      (⟨history.past.length, node⟩ :: history.bodies) := by
  have silent : PastVisit.assigned? ⟨history.around, .enter (.inner node)⟩ = none := by
    unfold Node.hasBody at hasBody
    unfold PastVisit.assigned?
    cases content : node.content <;> simp_all
  refine .cons ⟨kind, fun {name} _ => ?_⟩ (frames_silent frames (by simp [silent]))
  -- The number is new, so nothing was assigned under it.
  have fresh : (history.past.length, name) ∉ history.assigned :=
    fun member => Nat.lt_irrefl _ (orderly.assigned member)
  rw [History.declares_after, silent, History.declares_iff]
  simp [Frame.isDeclared, declared, fresh]

/-- Entering a node keeps the frames right. -/
theorem frames_enter {history : History} (orderly : history.Orderly) {situation : Situation}
    (frames : List.Forall₂ (Describes history) situation.scopes history.bodies) (node : Node) :
    List.Forall₂ (Describes (history.after (.enter (.inner node)))) (situation.enter node).scopes
      (history.after (.enter (.inner node))).bodies := by
  rw [History.bodies_enter]
  unfold Situation.enter
  cases content : node.content with
  | classBody name =>
    have hasBody : node.hasBody = true := by simp [Node.hasBody, content]
    rw [if_pos hasBody]
    exact frames_open orderly frames hasBody (by simp [Node.isClass, Node.className?, content])
      (by simp [Node.parameterNames, content])
  | function function =>
    have hasBody : node.hasBody = true := by simp [Node.hasBody, content]
    rw [if_pos hasBody]
    exact frames_open orderly frames hasBody
      (by simp [Node.isClass, Node.className?, content, functionFrame])
      (by simp [Node.parameterNames, content, functionFrame])
  | assignment assignment =>
    have plain : ¬ node.hasBody = true := by simp [Node.hasBody, content]
    rw [if_neg plain]
    dsimp only
    split
    · rename_i member
      refine frames_silent frames fun number name other same => ?_
      simp only [PastVisit.assigned?, content, Option.map_eq_some_iff, Prod.mk.injEq] at same
      obtain ⟨body, -, -, rfl⟩ := same
      rw [member] at other
      cases other
    · exact frames_assign orderly frames content
  | package | importBlock | importPath | accessBlock | staticBlock | print
  | returnStatement | ifBranch | elseIfBranch | elseBranch | call | chain =>
    have plain : ¬ node.hasBody = true := by simp [Node.hasBody, content]
    rw [if_neg plain]
    exact frames_silent frames (by simp [PastVisit.assigned?, content])

/-- The frames of a session follow the history of its walk. -/
theorem historical_tracked : Historical listener Tracked where
  enterRoot {program history session next} before entered := by
    rw [call_listener] at entered
    have scopes : next.scopes = session.scopes :=
      congrArg Situation.scopes (situation_of_visit entered)
    refine ⟨before.nodes, before.orderly.after _, ?_⟩
    rw [scopes]
    exact frames_silent before.frames (by simp [PastVisit.assigned?])
  enter {above node history session next} before entered := by
    rw [call_listener] at entered
    have scopes : next.scopes = (session.situation.enter node).scopes :=
      congrArg Situation.scopes (situation_of_visit entered)
    refine ⟨congrArg (node :: ·) before.nodes, before.orderly.after _, ?_⟩
    rw [scopes]
    exact frames_enter before.orderly before.frames node
  exit {above node history session next} before left := by
    rw [call_listener] at left
    have scopes : next.scopes = (session.situation.exit node).scopes :=
      congrArg Situation.scopes (situation_of_visit left)
    obtain ⟨occurrence, outer, around, rfl, nodes⟩ := List.map_eq_cons_iff.mp before.nodes
    have outside : (history.after (.exit (.inner occurrence.node))).around = outer := by
      simp only [History.after, around, List.tail_cons]
    refine ⟨outside ▸ nodes, before.orderly.after _, ?_⟩
    have frames : List.Forall₂ (Describes (history.after (.exit (.inner occurrence.node))))
        session.scopes history.bodies := frames_silent before.frames (by simp [PastVisit.assigned?])
    rw [History.bodies, around, List.filter_cons] at frames
    rw [scopes, History.bodies, outside]
    unfold Situation.exit
    unfold Node.hasBody at frames
    revert frames
    cases occurrence.node.content with
    | classBody | function =>
      intro frames
      have outer := List.forall₂_drop 1 frames
      rwa [List.drop_one] at outer
    | package | importBlock | importPath | accessBlock | staticBlock | assignment | print
    | returnStatement | ifBranch | elseIfBranch | elseBranch | call | chain => exact id

/-- A target that is no member of the object is written as it is, its links as dots. -/
theorem targetCode_of_plain {target : String} (plain : isMemberReference target = false) :
    targetCode target = Value.links target := by
  have same : Text.dropLeading memberMark.toList target.toList = target.toList := by
    unfold isMemberReference at plain
    unfold Text.dropLeading
    cases text : target.toList with
    | nil => rfl
    | cons first rest =>
      rw [text] at plain
      simp [Text.dropLeadingFrom, plain]
  rw [targetCode, same]
  rfl

/-- An assignment in a body is one call, whether or not the sink takes it; without a known
type it is none. -/
theorem calls_assignment {session : Session} {frame : Frame} {outer : Scopes}
    (scopes : session.scopes = frame :: outer) {node : Node} {assignment : Assignment}
    (content : node.content = .assignment assignment) :
    (session.emissions (.enter (.inner node))).map Emission.call =
      match TypeTag.readOptional assignment.type with
      | .error _ => []
      | .ok tag =>
        [session.assignmentCall node.hasChain assignment tag
          (" ".intercalate ((if frame.isDeclared assignment.target then []
            else session.declarationTokens
              (session.declaration frame node.hasChain assignment tag)) ++
                [targetCode assignment.target]))] := by
  have planned : session.plan (.enter (.inner node)) =
      (TypeTag.readOptional assignment.type).map
        (session.assign frame node.hasChain assignment) := by
    simp only [plan, enterNode, content, enterAssignment, scopes]
    cases TypeTag.readOptional assignment.type <;> rfl
  cases known : TypeTag.readOptional assignment.type with
  | error unknown =>
    rw [known] at planned
    simp only [emissions, planned]
    rfl
  | ok tag =>
    rw [known] at planned
    exact map_call_emissions_of_single planned (session.assign_calls frame node.hasChain ..)

/-- A chain is one call, whether or not the sink takes it. -/
theorem calls_chain {session : Session} {node : Node} {segments : List Segment}
    (content : node.content = .chain segments) :
    (session.emissions (.enter (.inner node))).map Emission.call =
      [.write (Chain.code session.layout session.classes session.scopes.head? segments) 1
        true] := by
  have planned : session.plan (.enter (.inner node)) = .ok (session.enterChain segments) := by
    simp only [plan, enterNode, content]
  refine map_call_emissions_of_single planned ?_
  rw [enterChain, List.filterMap_append, filterMap_call?_notes]
  rfl

/-- Silent nodes make no call. -/
theorem emissions_silent {session : Session} {visit : Visit} {node : Node}
    (visited : visit.subject = .inner node) (silent : node.isSilent = true) :
    session.emissions visit = [] := by
  unfold Node.isSilent at silent
  cases visit with
  | enter subject | exit subject =>
    cases visited
    cases content : node.content <;> simp [content] at silent
    all_goals
      simp only [emissions, plan, enterNode, exitNode, content]
      rfl

/-- Where there are only silent nodes, no call is made. -/
theorem emissionsAlong_silent {nodes : List Node}
    (silent : ∀ node ∈ nodes.flatMap Node.preorder, node.isSilent = true) (session : Session) :
    session.emissionsAlong (nodes.flatMap Node.visits) = [] := by
  refine List.flatMap_eq_nil_iff.mpr ?_
  rintro ⟨visit, state⟩ called
  have visited : visit ∈ nodes.flatMap Node.visits :=
    (listener.map_trace_isPrefix _ _).mem (List.mem_map_of_mem called)
  have nested := Node.nested_flatMap fun node (_ : node ∈ nodes) => node.nested_visits
  obtain ⟨node, member, subject⟩ := List.mem_map.mp (nested.subject_mem visited)
  exact emissions_silent subject.symm (silent node member)

end Session

/-- A name is declared once in a body: when the walk of a transcription enters an assignment
whose target is no member of the object, in a class or function, the line has modifiers and
a type exactly if the name is neither a parameter there nor was assigned there before. What
is around is told apart by the visits that entered it. A chain among the children is written
as a statement, behind what the children before it write; so it ends a line that the
assignment left open if those are silent, and otherwise whatever they write first stands
there. -/
theorem Program.names_declared_once (program : Program) (options : Options) (sink : Sink)
    {number : Nat} {node : Node} {session : Session}
    (called : (Session.listener.calls program (Session.start options sink))[number]? =
      some (.enter (.inner node), session))
    {assignment : Assignment} (content : node.content = .assignment assignment)
    (plain : Session.isMemberReference assignment.target = false)
    {body : Occurrence} (nearest : (program.history number).bodies.head? = some body) :
    (∃ placed, program.placedVisits[number]? = some placed ∧
      placed.visit = .enter (.inner node) ∧
      placed.ancestors = (program.history number).around.map Occurrence.node) ∧
    (∀ occurrence ∈ (program.history number).around,
      program.visits[occurrence.number]? = some (.enter (.inner occurrence.node))) ∧
    ((session.emissions (.enter (.inner node))).map Emission.call =
      match TypeTag.readOptional assignment.type with
      | .error _ => []
      | .ok tag =>
        [session.assignmentCall node.hasChain assignment tag
          (if (program.history number).declares body assignment.target then
            Value.links assignment.target
          else
            " ".intercalate ((if body.node.isClass then session.modifiers.keywords none else []) ++
              ((Declaration.type?
                { tag
                  shape := Shape.classify session.classes node.hasChain assignment.value
                  isField := body.node.isClass
                  isMemberReference := false }).map TargetType.code).toList ++
              [Value.links assignment.target]))]) ∧
    ∀ before chain behind segments inner next, node.children = before ++ chain :: behind →
      chain.content = .chain segments → session.visit (.enter (.inner node)) = (.ok (), inner) →
      Session.listener.run (before.flatMap Node.visits) inner = (.ok (), next) →
      ((Session.listener.calls program (Session.start options sink)).drop number).take
            ((before.flatMap Node.visits).length + 2) =
          (.enter (.inner node), session) ::
            Session.listener.trace (before.flatMap Node.visits) inner ++
              [(.enter (.inner chain), next)] ∧
        (next.emissions (.enter (.inner chain))).map Emission.call =
          [.write (Chain.code next.layout next.classes next.scopes.head? segments) 1 true] ∧
        ((∀ other ∈ before.flatMap Node.preorder, other.isSilent = true) →
          inner.emissionsAlong (before.flatMap Node.visits) = []) := by
  have begun : Session.Tracked [] {} (Session.start options sink) :=
    ⟨rfl, ⟨.nil, by simp, by simp⟩, .nil⟩
  obtain ⟨placed, place, visited, tracked⟩ :=
    Session.historical_tracked.calls program begun called
  refine ⟨⟨placed, place, visited, ?_⟩, fun _ member => entered_of_mem_history member, ?_, ?_⟩
  · rw [tracked.nodes, PlacedVisit.around, visited]
  · obtain ⟨others, bodies⟩ := List.head?_eq_some_iff.mp nearest
    have frames := tracked.frames
    rw [bodies] at frames
    obtain ⟨frame, outer, describes, -, scopes⟩ := List.forall₂_cons_right_iff.mp frames
    have declared : frame.isDeclared assignment.target =
        (program.history number).declares body assignment.target :=
      Bool.eq_iff_iff.mpr (describes.declared plain)
    rw [Session.calls_assignment scopes content, Session.targetCode_of_plain plain, declared]
    simp only [Session.declarationTokens, Session.declaration, describes.kind, plain]
    cases (program.history number).declares body assignment.target
    · rfl
    · simp only [↓reduceIte, List.nil_append, String.intercalate_singleton]
  · intro before chain behind segments inner next children isChain entered passed
    exact ⟨Session.listener.calls_to_child called children (by simpa using entered) passed,
      Session.calls_chain isChain, fun silent => Session.emissionsAlong_silent silent inner⟩

namespace Program

/-- A method that assigns a name under a condition and again behind it. -/
def counting : Node :=
  ⟨4, .function ⟨"add", [⟨"step", none, none⟩], false, none⟩,
    [⟨5, .ifBranch "if step", [⟨6, .assignment ⟨"total", some "Integer", some "2"⟩, []⟩]⟩,
      ⟨7, .assignment ⟨"total", none, none⟩, [⟨8, .chain [⟨"step", none⟩], []⟩]⟩]⟩

/-- The method in a class that has a field of the same name. -/
def counter : Program :=
  ⟨1, [⟨2, .classBody "Counter", [⟨3, .assignment ⟨"total", none, some "0"⟩, []⟩, counting]⟩]⟩

/-- The name is declared where the method assigns it first, whatever the class declares, and
not again. -/
theorem names_declared_once_counter :
    (∃ session entry, (Session.listener.calls counter (Session.start ⟨.pretty, true⟩ {}))[6]? =
        some (entry, session) ∧
      (session.emissions entry).map Emission.call =
        [session.assignmentCall false ⟨"total", some "Integer", some "2"⟩ (some .integer)
          "int total"]) ∧
    ∃ session entry, (Session.listener.calls counter (Session.start ⟨.pretty, true⟩ {}))[9]? =
        some (entry, session) ∧
      (session.emissions entry).map Emission.call = [.write "total = " 0 false] := by
  have succeeds : (counter.transcribe ⟨.pretty, true⟩ {}).result = .ok () := by decide +kernel
  obtain ⟨early, first⟩ := exists_call succeeds (show counter.visits[6]? = some _ from rfl)
  obtain ⟨late, second⟩ := exists_call succeeds (show counter.visits[9]? = some _ from rfl)
  have inMethod : (counter.history 6).bodies.head? = some ⟨4, counting⟩ := rfl
  have stillInMethod : (counter.history 9).bodies.head? = some ⟨4, counting⟩ := rfl
  have fresh : (counter.history 6).declares ⟨4, counting⟩ "total" = false := by decide +kernel
  have known : (counter.history 9).declares ⟨4, counting⟩ "total" = true := by decide +kernel
  have links : Value.links "total" = "total" := by decide +kernel
  have tag : TypeTag.readOptional (some "Integer") = .ok (some .integer) := by decide +kernel
  refine ⟨⟨early, _, first, ?_⟩, late, _, second, ?_⟩
  · refine (counter.names_declared_once _ _ first rfl (by decide) inMethod).2.2.1.trans ?_
    have text : " ".intercalate ["int", "total"] = "int total" := by decide +kernel
    simp only [tag, fresh, links, ← text]
    rfl
  · refine (counter.names_declared_once _ _ second rfl (by decide) stillInMethod).2.2.1.trans ?_
    have text : "total" ++ " = " = "total = " := by decide +kernel
    simp only [known, links, ← text]
    rfl

/-- A method that assigns a name twice, with a branch before the chain of the second value. -/
def branchInAssignment : Program :=
  ⟨1, [⟨2, .classBody "A", [⟨3, .function ⟨"run", [], false, none⟩,
    [⟨4, .assignment ⟨"x", none, some "1"⟩, []⟩,
      ⟨5, .assignment ⟨"x", none, none⟩,
        [⟨6, .ifBranch "if c", []⟩, ⟨7, .chain [⟨"z", none⟩], []⟩]⟩]⟩]⟩]⟩

/-- The header of the branch stands behind the name, and the chain is a statement of its
own. -/
theorem branch_behind_name :
    (branchInAssignment.transcribe ⟨.compact, false⟩ {}).result = .ok () ∧
    (branchInAssignment.transcribe ⟨.compact, false⟩ {}).text =
      "class A \x7bpublic void run() \x7bvar x = 1;x = if (c) \x7b\x7dz;\x7d\x7d" ∧
    ¬ "x = z".toList <:+: (branchInAssignment.transcribe ⟨.compact, false⟩ {}).text.toList := by
  have text : (branchInAssignment.transcribe ⟨.compact, false⟩ {}).text =
      "class A \x7bpublic void run() \x7bvar x = 1;x = if (c) \x7b\x7dz;\x7d\x7d" := by
    decide +kernel
  refine ⟨by decide +kernel, text, ?_⟩
  rw [text]
  decide +kernel

end Program

end Treescribe
