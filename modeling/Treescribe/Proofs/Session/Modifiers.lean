import Treescribe.Proofs.Session.Declarations

/-!
# Modifiers and blocks

An access block sets the access of what is declared in it, a static block makes it static.
A block that ends clears what it set, and does not bring back what was set before. So the
modifiers in force are those of the nearest block of each sort around, unless another block
of that sort has ended within it. Blocks of different sorts do not concern each other.
-/

namespace Treescribe

namespace Node

/-- The access that an access block sets. -/
def access? (node : Node) : Option Access :=
  match node.content with
  | .accessBlock access => some access
  | _ => none

/-- What marks a static block. -/
def static? (node : Node) : Option Unit :=
  match node.content with
  | .staticBlock => some ()
  | _ => none

end Node

/-- Whether a visit leaves a block of a sort. -/
def PastVisit.leaves {α : Type} (sets : Node → Option α) (past : PastVisit) : Bool :=
  match past.visit with
  | .exit (.inner node) => (sets node).isSome
  | _ => false

namespace History

variable {α : Type} {sets : Node → Option α} {history : History}

/-- What the nearest block of a sort around sets, unless another one has been left since it
was entered. -/
def inForce (sets : Node → Option α) (history : History) : Option α :=
  (history.around.find? fun occurrence => (sets occurrence.node).isSome).bind fun block =>
    if (history.past.drop (block.number + 1)).any (·.leaves sets) then none else sets block.node

/-- A visit adds itself to what was visited since a block around was entered. -/
theorem any_leaves_after (orderly : history.Orderly) {block : Occurrence}
    (around : block ∈ history.around) (visit : Visit) :
    ((history.after visit).past.drop (block.number + 1)).any (·.leaves sets) =
      ((history.past.drop (block.number + 1)).any (·.leaves sets) ||
        PastVisit.leaves sets ⟨history.around, visit⟩) := by
  have entered := orderly.entered block around
  have past : (history.after visit).past = history.past ++ [⟨history.around, visit⟩] := rfl
  rw [past, List.drop_append_of_le_length entered, List.any_append, List.any_cons, List.any_nil,
    Bool.or_false]

/-- Visits that leave no block of a sort and change no such block around change nothing that
is in force. -/
theorem inForce_silent (orderly : history.Orderly) {visit : Visit}
    (same : (history.after visit).around.find? (fun occurrence => (sets occurrence.node).isSome) =
      history.around.find? fun occurrence => (sets occurrence.node).isSome)
    (silent : PastVisit.leaves sets ⟨history.around, visit⟩ = false) :
    (history.after visit).inForce sets = history.inForce sets := by
  unfold inForce
  rw [same]
  refine Option.bind_congr fun block nearest => ?_
  have around := List.mem_of_find?_eq_some nearest
  rw [any_leaves_after orderly around, silent, Bool.or_false]

/-- A block is in force from its entry on; what is no block of the sort changes nothing. -/
theorem inForce_enter (orderly : history.Orderly) (node : Node) :
    (history.after (.enter (.inner node))).inForce sets =
      (sets node).or (history.inForce sets) := by
  have around : (history.after (.enter (.inner node))).around =
      ⟨history.past.length, node⟩ :: history.around := rfl
  cases set : sets node with
  | none =>
    refine (inForce_silent orderly ?_ rfl).trans Option.none_or.symm
    rw [around, List.find?_cons_of_neg (by simp [set])]
  | some value =>
    have fresh : (history.after (.enter (.inner node))).past.drop (history.past.length + 1) = [] :=
      List.drop_of_length_le (by simp [after])
    unfold inForce
    rw [around, List.find?_cons_of_pos (by simp [set])]
    simp [fresh, set]

/-- Behind the end of a block nothing of its sort is in force; what is no block of the sort
changes nothing. -/
theorem inForce_exit (orderly : history.Orderly) {occurrence : Occurrence}
    {outer : List Occurrence} (around : history.around = occurrence :: outer) :
    (history.after (.exit (.inner occurrence.node))).inForce sets =
      if (sets occurrence.node).isSome then none else history.inForce sets := by
  have outside : (history.after (.exit (.inner occurrence.node))).around = outer := by
    simp only [after, around, List.tail_cons]
  split
  · rename_i set
    unfold inForce
    rw [outside, Option.bind_eq_none_iff]
    intro block nearest
    have member : block ∈ history.around := by
      rw [around]
      exact List.mem_cons_of_mem _ (List.mem_of_find?_eq_some nearest)
    have left : PastVisit.leaves sets ⟨history.around, .exit (.inner occurrence.node)⟩ = true := set
    rw [any_leaves_after orderly member, left, Bool.or_true, if_pos rfl]
  · rename_i unset
    have silent : PastVisit.leaves sets ⟨history.around, .exit (.inner occurrence.node)⟩ = false :=
      Bool.eq_false_iff.mpr unset
    refine inForce_silent orderly ?_ silent
    rw [outside, around, List.find?_cons_of_neg (by simpa using unset)]

end History

namespace Situation

/-- Entering an access block sets its access, and nothing else does. -/
theorem access_enter (situation : Situation) (node : Node) :
    (situation.enter node).modifiers.access = node.access?.or situation.modifiers.access := by
  unfold enter Node.access?
  cases node.content with
  | assignment assignment =>
    dsimp only
    split <;> rfl
  | package | importBlock | importPath | classBody | function | accessBlock | staticBlock | print
  | returnStatement | ifBranch | elseIfBranch | elseBranch | call | chain => rfl

/-- Leaving an access block clears the access, and nothing else does. -/
theorem access_exit (situation : Situation) (node : Node) :
    (situation.exit node).modifiers.access =
      if node.access?.isSome then none else situation.modifiers.access := by
  unfold exit Node.access?
  cases node.content <;> rfl

/-- Entering a static block sets the mark, and nothing else does. -/
theorem static_enter (situation : Situation) (node : Node) :
    (situation.enter node).modifiers.isStatic =
      (node.static?.isSome || situation.modifiers.isStatic) := by
  unfold enter Node.static?
  cases node.content with
  | assignment assignment =>
    dsimp only
    split <;> rfl
  | package | importBlock | importPath | classBody | function | accessBlock | staticBlock | print
  | returnStatement | ifBranch | elseIfBranch | elseBranch | call | chain => rfl

/-- Leaving a static block clears the mark, and nothing else does. -/
theorem static_exit (situation : Situation) (node : Node) :
    (situation.exit node).modifiers.isStatic =
      if node.static?.isSome then false else situation.modifiers.isStatic := by
  unfold exit Node.static?
  cases node.content <;> rfl

end Situation

namespace Session

/-- A session in the middle of a walk whose modifiers are those in force, and whose scopes
follow the tree. -/
structure Governed (around : List Node) (history : History) (session : Session) : Prop where
  tracked : Tracked around history session
  settled : ScopedBy around session
  access : session.modifiers.access = history.inForce Node.access?
  static : session.modifiers.isStatic = (history.inForce Node.static?).isSome

/-- The modifiers of a session follow the history of its walk. -/
theorem historical_governed : Historical listener Governed where
  enterRoot {program history session next} before entered := by
    have tracked := historical_tracked.enterRoot before.tracked entered
    have settled := lexical_scopedBy.enterRoot before.settled entered
    rw [call_listener] at entered
    have modifiers : next.modifiers = session.modifiers :=
      congrArg Situation.modifiers (situation_of_visit entered)
    have orderly := before.tracked.orderly
    refine ⟨tracked, settled, ?_, ?_⟩
    · rw [modifiers, History.inForce_silent orderly rfl rfl, before.access]
    · rw [modifiers, History.inForce_silent orderly rfl rfl, before.static]
  enter {above node history session next} before entered := by
    have tracked := historical_tracked.enter before.tracked entered
    have settled := lexical_scopedBy.enter before.settled entered
    rw [call_listener] at entered
    have modifiers : next.modifiers = (session.situation.enter node).modifiers :=
      congrArg Situation.modifiers (situation_of_visit entered)
    have orderly := before.tracked.orderly
    refine ⟨tracked, settled, ?_, ?_⟩
    · rw [modifiers, Situation.access_enter, History.inForce_enter orderly, ← before.access]
      rfl
    · rw [modifiers, Situation.static_enter, History.inForce_enter orderly, Option.isSome_or,
        ← before.static]
      rfl
  exit {above node history session next} before left := by
    have tracked := historical_tracked.exit before.tracked left
    have settled := lexical_scopedBy.exit before.settled left
    rw [call_listener] at left
    have modifiers : next.modifiers = (session.situation.exit node).modifiers :=
      congrArg Situation.modifiers (situation_of_visit left)
    have orderly := before.tracked.orderly
    obtain ⟨occurrence, outer, around, rfl, -⟩ := List.map_eq_cons_iff.mp before.tracked.nodes
    refine ⟨tracked, settled, ?_, ?_⟩
    · rw [modifiers, Situation.access_exit, History.inForce_exit orderly around, ← before.access]
      rfl
    · rw [modifiers, Situation.static_exit, History.inForce_exit orderly around, apply_ite
        Option.isSome, ← before.static]
      rfl

/-- The first call on the way into a function in a class writes its header, whether or not the
sink takes it. -/
theorem head_call_function {session : Session} {node : Node} {function : Function}
    (content : node.content = .function function) {enclosing : Frame}
    (inClass : session.scopes.enclosingClass? = some enclosing) {types parameters : List String}
    (typed : function.typeKeywords enclosing.name = .ok types)
    (coded : function.parameters.mapM (Parameter.code session.layout) = .ok parameters) :
    (session.emissions (.enter (.inner node))).head?.map Emission.call =
      some (.write (function.headerText
        (session.modifiers.keywords (some .publicAccess) ++ types) parameters ++ " \x7b") 1
        false) := by
  have header : function.header session.layout session.modifiers enclosing.name =
      .ok (function.headerText
        (session.modifiers.keywords (some .publicAccess) ++ types) parameters) := by
    unfold Function.header
    rw [typed, coded]
    rfl
  have planned : session.plan (.enter (.inner node)) =
      .ok (Action.openBlock (function.headerText
        (session.modifiers.keywords (some .publicAccess) ++ types) parameters) ++
          [.enterScope (functionFrame function true)]) := by
    simp only [plan, enterNode, content, enterFunction, inClass, header]
    rfl
  simp only [emissions, planned]
  rfl

end Session

/-- Modifiers are those of blocks: when the walk of a transcription enters a function in a
class, the header has the access of the nearest access block around, and is `static` if
there is a static block around, and so has the first declaration of a field. A block has
no effect behind the end of another one of its sort within it: a function is then public,
and a field without access, as outside all access blocks, and neither is `static`. -/
theorem Program.modifiers_by_blocks (program : Program) (options : Options) (sink : Sink)
    {number : Nat} {node : Node} {session : Session}
    (called : (Session.listener.calls program (Session.start options sink))[number]? =
      some (.enter (.inner node), session)) :
    (∃ placed, program.placedVisits[number]? = some placed ∧
      placed.visit = .enter (.inner node) ∧
      placed.ancestors = (program.history number).around.map Occurrence.node) ∧
    (∀ occurrence ∈ (program.history number).around,
      program.visits[occurrence.number]? = some (.enter (.inner occurrence.node))) ∧
    (∀ function className types parameters, node.content = .function function →
      ((program.history number).around.map Occurrence.node).findSome? Node.className? =
        some className →
      function.typeKeywords className = .ok types →
      function.parameters.mapM (Parameter.code session.layout) = .ok parameters →
      (session.emissions (.enter (.inner node))).head?.map Emission.call =
        some (.write (function.headerText
          ((((program.history number).inForce Node.access?).getD .publicAccess).keyword ::
            ((if ((program.history number).inForce Node.static?).isSome then ["static"] else []) ++
              types)) parameters ++ " \x7b") 1 false)) ∧
    ∀ assignment body tag, node.content = .assignment assignment →
      Session.isMemberReference assignment.target = false →
      (program.history number).bodies.head? = some body → body.node.isClass = true →
      (program.history number).declares body assignment.target = false →
      TypeTag.readOptional assignment.type = .ok tag →
      (session.emissions (.enter (.inner node))).map Emission.call =
        [session.assignmentCall node.hasChain assignment tag
          (" ".intercalate
            ((((program.history number).inForce Node.access?).map Access.keyword).toList ++
              (if ((program.history number).inForce Node.static?).isSome then ["static"] else []) ++
              ((Declaration.type?
                { tag
                  shape := Shape.classify session.classes node.hasChain assignment.value
                  isField := true
                  isMemberReference := false }).map TargetType.code).toList ++
              [Value.links assignment.target]))] := by
  have begun : Session.Governed [] {} (Session.start options sink) :=
    ⟨⟨rfl, ⟨.nil, by simp, by simp⟩, .nil⟩, rfl, rfl, rfl⟩
  obtain ⟨placed, place, visited, governed⟩ :=
    Session.historical_governed.calls program begun called
  have tracked := governed.tracked
  refine ⟨⟨placed, place, visited, ?_⟩, fun _ member => entered_of_mem_history member, ?_, ?_⟩
  · rw [tracked.nodes, PlacedVisit.around, visited]
  · intro function className types parameters content nearest typed coded
    have enclosing := governed.settled.enclosingClass?
    rw [← tracked.nodes, nearest] at enclosing
    obtain ⟨frame, inClass, rfl⟩ := Option.map_eq_some_iff.mp enclosing
    rw [Session.head_call_function content inClass typed coded, Modifiers.keywords,
      governed.access, governed.static]
    cases (program.history number).inForce Node.access? <;> rfl
  · intro assignment body tag content plain nearest inClass fresh known
    obtain ⟨others, bodies⟩ := List.head?_eq_some_iff.mp nearest
    have frames := tracked.frames
    rw [bodies] at frames
    obtain ⟨frame, outer, describes, -, scopes⟩ := List.forall₂_cons_right_iff.mp frames
    have undeclared : frame.isDeclared assignment.target = false := by
      rw [Bool.eq_false_iff, ne_eq, describes.declared plain, fresh]
      simp
    have isField : (frame.kind == .classBody) = true := describes.kind.trans inClass
    rw [Session.calls_assignment scopes content, known, Session.targetCode_of_plain plain]
    simp only [undeclared, Session.declarationTokens, Session.declaration, isField, plain,
      Modifiers.keywords, governed.access, governed.static, Option.or_none]
    rfl

namespace Program

/-- A private block with a static block in it, in which a field is declared, a public block and
another static block end, and a function follows. -/
def nestedBlocks : Program :=
  ⟨1, [⟨2, .classBody "Safe",
    [⟨3, .accessBlock .privateAccess,
      [⟨4, .staticBlock,
        [⟨5, .assignment ⟨"count", some "Integer", none⟩, []⟩,
          ⟨6, .accessBlock .publicAccess, []⟩,
          ⟨7, .staticBlock, []⟩,
          ⟨8, .function ⟨"run", [], false, none⟩, []⟩]⟩]⟩]⟩]⟩

/-- The field is private and static, as the blocks around say; the function behind the inner
blocks is neither. -/
theorem modifiers_by_blocks_nestedBlocks :
    (∃ session entry,
      (Session.listener.calls nestedBlocks (Session.start ⟨.pretty, true⟩ {}))[4]? =
        some (entry, session) ∧
      (session.emissions entry).map Emission.call =
        [session.assignmentCall false ⟨"count", some "Integer", none⟩ (some .integer)
          "private static int count"]) ∧
    ∃ session entry,
      (Session.listener.calls nestedBlocks (Session.start ⟨.pretty, true⟩ {}))[10]? =
        some (entry, session) ∧
      (session.emissions entry).head?.map Emission.call =
        some (.write "public void run() \x7b" 1 false) := by
  have succeeds : (nestedBlocks.transcribe ⟨.pretty, true⟩ {}).result = .ok () := by
    decide +kernel
  constructor
  · obtain ⟨session, called⟩ :=
      exists_call succeeds (show nestedBlocks.visits[4]? = some _ from rfl)
    have inClass : ∃ body, (nestedBlocks.history 4).bodies.head? = some body ∧
        body.node.isClass = true ∧ (nestedBlocks.history 4).declares body "count" = false :=
      ⟨_, rfl, rfl, by decide +kernel⟩
    obtain ⟨body, nearest, isClass, fresh⟩ := inClass
    have tag : TypeTag.readOptional (some "Integer") = .ok (some .integer) := by decide +kernel
    have access : (nestedBlocks.history 4).inForce Node.access? = some .privateAccess := by
      decide +kernel
    have static : (nestedBlocks.history 4).inForce Node.static? = some () := by decide +kernel
    have links : Value.links "count" = "count" := by decide +kernel
    have text : " ".intercalate ["private", "static", "int", "count"] =
        "private static int count" := by decide +kernel
    refine ⟨session, _, called, ?_⟩
    refine ((nestedBlocks.modifiers_by_blocks _ _ called).2.2.2 _ body _ rfl (by decide) nearest
      isClass fresh tag).trans ?_
    simp only [access, static, links, ← text]
    rfl
  · obtain ⟨session, called⟩ :=
      exists_call succeeds (show nestedBlocks.visits[10]? = some _ from rfl)
    refine ⟨session, _, called, ?_⟩
    refine ((nestedBlocks.modifiers_by_blocks _ _ called).2.2.1 _ "Safe" ["void"] [] rfl rfl
      (by decide +kernel) rfl).trans ?_
    decide +kernel

/-- The function is neither private nor static, though the nearest access block around is
private and a static block is around: other blocks have ended in them. -/
theorem nearest_blocks_without_effect :
    (nestedBlocks.placedVisits[10]?.map fun placed =>
      (placed.ancestors.findSome? Node.access?, placed.ancestors.findSome? Node.static?)) =
        some (some .privateAccess, some ()) ∧
    ((Session.listener.calls nestedBlocks (Session.start ⟨.compact, false⟩ {}))[10]?.map
      fun called => (called.2.emissions called.1).map Emission.call) =
        some [.write "public void run() \x7b" 1 false, .indent] := by
  decide +kernel

end Program

end Treescribe
