import Treescribe.Proofs.Session.Declarations
import Treescribe.Proofs.Session.Headers

/-!
# Assignments to members, and outside all bodies

A member of the object is never declared, but where its name is not a parameter of the body it
is written like a declaration: with the modifiers in force if it stands in a class, and with its
type if one is stated, each time it is assigned. An assignment outside all bodies is left out,
but not the chains below it, each of which is then a statement of its own.
-/

namespace Treescribe

namespace TypeTag

/-- The name of a type is read, where there is one. -/
theorem exists_readOptional {text : Option String}
    (spelled : ∀ type ∈ text, isSpelled type = true) : ∃ tag, readOptional text = .ok tag := by
  cases text with
  | none => exact ⟨none, rfl⟩
  | some type =>
    obtain ⟨tag, known⟩ := exists_read (spelled type rfl)
    exact ⟨some tag, by rw [readOptional, known]; rfl⟩

end TypeTag

/-- A modifier that is in force has a keyword. -/
theorem Modifiers.keywords_eq_nil_iff {modifiers : Modifiers} :
    modifiers.keywords none = [] ↔ modifiers.access = none ∧ modifiers.isStatic = false := by
  obtain ⟨access, isStatic⟩ := modifiers
  cases access <;> cases isStatic <;> simp [keywords]

namespace Session

/-- A member of the object is a name behind one or more marks, none of which is written. -/
theorem exists_marks {target : String} (member : isMemberReference target = true) :
    ∃ copies name, 0 < copies ∧
      target.toList = (List.replicate copies memberMark.toList).flatten ++ name.toList ∧
      isMemberReference name = false ∧ targetCode target = Value.links name := by
  have some : memberMark.toList ≠ [] := by decide
  obtain ⟨copies, whole, bare⟩ := Text.exists_copies some target.toList
  refine ⟨copies, String.ofList (Text.dropLeading memberMark.toList target.toList), ?_, ?_, ?_, ?_⟩
  · refine Nat.pos_of_ne_zero fun missing => bare ?_
    rw [missing, List.replicate_zero, List.flatten_nil, List.nil_append] at whole
    rw [← whole]
    exact List.isPrefixOf_iff_prefix.mp member
  · rw [String.toList_ofList]
    exact whole
  · rw [isMemberReference, String.toList_ofList]
    exact Bool.eq_false_iff.mpr fun marked => bare (List.isPrefixOf_iff_prefix.mp marked)
  · rw [targetCode, Value.links, String.toList_ofList]

/-- What stands before a member of the object that is assigned in a body. -/
def memberWords (session : Session) (frame : Frame) (target : String) (tag : Option TypeTag) :
    List String :=
  if frame.isDeclared target then []
  else
    (if frame.kind = .classBody then session.modifiers.keywords none else []) ++
      (tag.map (·.target.code)).toList

/-- A member of the object has no other type than the one stated. -/
theorem declarationTokens_of_member {session : Session} {assignment : Assignment}
    (member : isMemberReference assignment.target = true) (frame : Frame) (hasChain : Bool)
    (tag : Option TypeTag) :
    session.declarationTokens (session.declaration frame hasChain assignment tag) =
      (if frame.kind = .classBody then session.modifiers.keywords none else []) ++
        (tag.map (·.target.code)).toList := by
  simp only [declarationTokens, declaration, Declaration.type?, member, beq_iff_eq]
  cases tag <;> rfl

/-- Nothing stands before a member exactly if its name is a parameter of the body, or if no type
is stated and no modifier is in force that the body has its members take. -/
theorem memberWords_eq_nil_iff {session : Session} {frame : Frame} {target : String}
    {tag : Option TypeTag} :
    session.memberWords frame target tag = [] ↔
      frame.isDeclared target = true ∨
        tag = none ∧ (frame.kind = .classBody →
          session.modifiers.access = none ∧ session.modifiers.isStatic = false) := by
  unfold memberWords
  rw [← Modifiers.keywords_eq_nil_iff]
  cases frame.isDeclared target <;> cases tag <;> simp

/-- Words before another one, each with a blank behind it. -/
theorem intercalate_concat (words : List String) (last : String) :
    " ".intercalate (words ++ [last]) = String.join (words.map (· ++ " ")) ++ last := by
  induction words with
  | nil => simp
  | cons word rest inductionHypothesis =>
    rw [List.cons_append, String.intercalate_cons_of_ne_nil (by simp), inductionHypothesis]
    simp [String.append_assoc]

/-- An assignment is a text that begins with its start. -/
theorem exists_assignmentCall (session : Session) (hasChain : Bool) (assignment : Assignment)
    (tag : Option TypeTag) (start : String) :
    ∃ behind newlines terminated, session.assignmentCall hasChain assignment tag start =
      .write (start ++ behind) newlines terminated := by
  unfold assignmentCall
  split
  · exact ⟨_, _, _, rfl⟩
  · exact ⟨_, _, _, rfl⟩

/-- Notices are reports. -/
theorem all_isOutward_notes (notices : List Notice) :
    (notices.map Action.note).all isOutward = true := by
  simp [isOutward]

/-- An assignment to a member of the object declares nothing. -/
theorem assign_isOutward {session : Session} {assignment : Assignment}
    (member : isMemberReference assignment.target = true) (frame : Frame) (hasChain : Bool)
    (tag : Option TypeTag) :
    (session.assign frame hasChain assignment tag).all isOutward = true := by
  have undeclared : (session.declaration frame hasChain assignment tag).isMemberReference = true :=
    member
  unfold assign
  simp only [undeclared, Bool.not_true, Bool.and_false, Bool.false_eq_true, ↓reduceIte,
    List.append_nil, List.all_append, Bool.and_eq_true]
  refine ⟨?_, ?_⟩
  · split
    · exact all_isOutward_notes _
    · rfl
  · cases hasChain <;> rfl

/-- An assignment to a member of the object writes one line and changes nothing else, no
declared name in particular. The line has the name without the marks before it, but not always
at its start: in a class the modifiers in force stand before the name, and everywhere the type
does that is stated, unless the target is declared with its marks. -/
theorem member_assignments {session : Session} {frame : Frame} {outer : Scopes}
    (scopes : session.scopes = frame :: outer) {node : Node} {assignment : Assignment}
    (content : node.content = .assignment assignment)
    (member : isMemberReference assignment.target = true) {tag : Option TypeTag}
    (known : TypeTag.readOptional assignment.type = .ok tag) :
    ∃ copies name, 0 < copies ∧
      assignment.target.toList =
        (List.replicate copies memberMark.toList).flatten ++ name.toList ∧
      isMemberReference name = false ∧
      OnlyWrites session
        [session.assignmentCall node.hasChain assignment tag
          (String.join ((session.memberWords frame assignment.target tag).map (· ++ " ")) ++
            Value.links name)]
        (session.visit (.enter (.inner node))) ∧
      (∀ next, session.visit (.enter (.inner node)) = (.ok (), next) →
        ∃ behind newlines terminated, next.emitter.sink.text = session.emitter.sink.text ++
          session.emitter.laidOut
            (String.join ((session.memberWords frame assignment.target tag).map (· ++ " ")) ++
              Value.links name ++ behind) newlines terminated) ∧
      (session.memberWords frame assignment.target tag = [] ↔
        frame.isDeclared assignment.target = true ∨
          tag = none ∧ (frame.kind = .classBody →
            session.modifiers.access = none ∧ session.modifiers.isStatic = false)) := by
  obtain ⟨copies, name, marked, whole, bare, code⟩ := exists_marks member
  have planned : session.plan (.enter (.inner node)) =
      .ok (session.assign frame node.hasChain assignment tag) := by
    simp only [plan, enterNode, content, enterAssignment, scopes, known]
    rfl
  have writes := visit_onlyWrites planned (assign_isOutward member frame node.hasChain tag)
  rw [assign_calls, declarationTokens_of_member member, ← memberWords, intercalate_concat, code]
    at writes
  refine ⟨copies, name, marked, whole, bare, writes, fun next entered => ?_, memberWords_eq_nil_iff⟩
  obtain ⟨behind, newlines, terminated, line⟩ := session.exists_assignmentCall node.hasChain
    assignment tag (String.join ((session.memberWords frame assignment.target tag).map (· ++ " ")) ++
      Value.links name)
  have performed := writes.performs
  rw [entered, line] at performed
  exact ⟨behind, newlines, terminated, Emitter.text_of_write performed.of_ok⟩

/-- A member that is assigned in a class has the modifiers and the type before its name. -/
theorem member_assignments_in_shape :
    isMemberReference "this@size" = true ∧
    ∃ copies name, 0 < copies ∧
      "this@size".toList = (List.replicate copies memberMark.toList).flatten ++ name.toList ∧
      OnlyWrites inShape
        [inShape.assignmentCall false ⟨"this@size", some "Integer", some "4"⟩ (some .integer)
          ("private static int " ++ Value.links name)]
        (inShape.visit
          (.enter (.inner ⟨1, .assignment ⟨"this@size", some "Integer", some "4"⟩, []⟩))) := by
  have member : isMemberReference "this@size" = true := by decide
  have known : TypeTag.readOptional (some "Integer") = .ok (some .integer) := by decide +kernel
  have scopes : inShape.scopes =
      { kind := .classBody, name := "Shape", emitted := true } :: [] := rfl
  have content : (Node.mk 1 (.assignment ⟨"this@size", some "Integer", some "4"⟩) []).content =
      .assignment ⟨"this@size", some "Integer", some "4"⟩ := rfl
  obtain ⟨copies, name, marked, whole, -, writes, -⟩ :=
    member_assignments scopes content member known
  have start : String.join ((inShape.memberWords
      { kind := .classBody, name := "Shape", emitted := true } "this@size" (some .integer)).map
        (· ++ " ")) = "private static int " := by decide +kernel
  rw [← start]
  exact ⟨member, copies, name, marked, whole, writes⟩

/-- A class that assigns a member of its objects in a private block and in its constructor. -/
def sizedClass : Program :=
  ⟨1, [⟨2, .classBody "A",
    [⟨3, .accessBlock .privateAccess, [⟨4, .assignment ⟨"this@size", none, some "4"⟩, []⟩]⟩,
      ⟨5, .function ⟨"A", [], false, none⟩,
        [⟨6, .assignment ⟨"this@size", some "Integer", some "5"⟩, []⟩]⟩]⟩]⟩

/-- A modifier stands before the member in that class, and a type in its constructor. -/
theorem words_before_member :
    isMemberReference "this@size" = true ∧
    (sizedClass.transcribe ⟨.compact, false⟩ {}).result = .ok () ∧
    (sizedClass.transcribe ⟨.compact, false⟩ {}).session.emitter.sink.text =
      "class A \x7bprivate size = 4;public A() \x7bint size = 5;\x7d\x7d" := by
  decide +kernel

/-- What a chain asks of the emitter where it stands. -/
def chainCall? (session : Session) (node : Node) : Option Call :=
  match node.content with
  | .chain segments =>
    some (.write (Chain.code session.layout session.classes session.scopes.head? segments) 1 true)
  | _ => none

/-- A chain asks the same of the emitter in the same situation and layout. -/
theorem chainCall?_congr {first second : Session} (situation : first.situation = second.situation)
    (setting : first.setting = second.setting) : first.chainCall? = second.chainCall? := by
  have classes : first.classes = second.classes := congrArg Situation.classes situation
  have scopes : first.scopes = second.scopes := congrArg Situation.scopes situation
  have layout : first.layout = second.layout := congrArg (·.1.layout) setting
  funext node
  simp only [chainCall?, classes, scopes, layout]

/-- Every chain asks for a statement. -/
theorem exists_chainCall? (session : Session) {node : Node} (kind : node.kind = .classAccess) :
    ∃ text, session.chainCall? node = some (.write text 1 true) := by
  obtain ⟨segments, content⟩ := node.content_of_kind.2 kind
  simp only [chainCall?, content]
  exact ⟨_, rfl⟩

/-- A chain without children is a statement. -/
theorem chain_onlyWrites {node : Node} (kind : node.kind = .classAccess)
    (leaf : node.children = []) (session : Session) :
    OnlyWrites session (session.chainCall? node).toList (listener.run node.visits session) := by
  obtain ⟨segments, content⟩ := node.content_of_kind.2 kind
  have entry : session.plan (.enter (.inner node)) = .ok (session.enterChain segments) := by
    simp only [plan, enterNode, content]
  have calls : (session.enterChain segments).filterMap Action.call? =
      (session.chainCall? node).toList := by
    simp only [enterChain, List.filterMap_append, filterMap_call?_notes, chainCall?, content]
    rfl
  have outward : (session.enterChain segments).all isOutward = true := by
    rw [enterChain, List.all_append, all_isOutward_notes]
    rfl
  have entered := visit_onlyWrites entry outward
  rw [calls] at entered
  rw [← List.append_nil (session.chainCall? node).toList]
  refine visits_onlyWrites entered (fun inner _ _ => ?_) fun last => by simp only [exitNode, content]
  rw [leaf]
  exact .refl inner

/-- Chains without children are statements one after another. -/
theorem chains_onlyWrites {nodes : List Node}
    (chains : ∀ node ∈ nodes, node.kind = .classAccess ∧ node.children = []) (session : Session) :
    OnlyWrites session (nodes.filterMap session.chainCall?)
      (listener.run (nodes.flatMap Node.visits) session) := by
  induction nodes generalizing session with
  | nil => exact .refl session
  | cons node rest inductionHypothesis =>
    obtain ⟨⟨kind, leaf⟩, others⟩ := List.forall_mem_cons.mp chains
    rw [filterMap_cons_eq_append, List.flatMap_cons, run_visits_append]
    refine (chain_onlyWrites kind leaf session).andThen fun middle situation setting => ?_
    -- The chains behind are the same calls, as the first leaves all that they depend on.
    rw [← chainCall?_congr situation setting]
    exact inductionHypothesis others middle

/-- An assignment outside all bodies leaves the writing to the chains below it. -/
theorem skipped_onlyWrites {session : Session} (outside : session.scopes = []) {node : Node}
    {assignment : Assignment} (content : node.content = .assignment assignment)
    (valid : ∀ type ∈ assignment.type, TypeTag.isSpelled type = true)
    (chains : ∀ child ∈ node.children, child.kind = .classAccess ∧ child.children = []) :
    OnlyWrites session (node.children.filterMap session.chainCall?)
      (listener.run node.visits session) := by
  obtain ⟨tag, known⟩ := TypeTag.exists_readOptional valid
  have planned : session.plan (.enter (.inner node)) =
      .ok [.note (.assignmentOutsideScope assignment.target)] := by
    simp only [plan, enterNode, content, enterAssignment, outside, known]
    rfl
  refine visits_onlyWrites (visit_onlyWrites planned rfl) (fun inner situation setting => ?_)
    fun last => by simp only [exitNode, content]
  rw [← chainCall?_congr situation setting]
  exact chains_onlyWrites chains inner

/-- A statement adds a text, whatever it says. -/
theorem join_texts_ne_empty (emitter : Emitter) (text : String) (newlines : Nat)
    (rest : List Call) :
    String.join (Emission.texts (emitter.emissions (.write text newlines true :: rest))) ≠ "" := by
  intro empty
  rw [← String.toList_inj] at empty
  simp [Emitter.emissions, Emission.texts, Emission.text?, Emitter.laidOut] at empty

/-- An assignment outside all bodies whose type is known, if it has one, writes nothing itself,
but each of the chains below it is still a statement, on any sink. Beside that a walk through it
changes nothing; so it adds no text exactly if there are no chains. -/
theorem assignments_outside_bodies {session : Session} (outside : session.scopes = [])
    {node : Node} {assignment : Assignment} (content : node.content = .assignment assignment)
    (valid : ∀ type ∈ assignment.type, TypeTag.isSpelled type = true)
    (chains : ∀ child ∈ node.children, child.kind = .classAccess ∧ child.children = []) :
    OnlyWrites session (node.children.filterMap session.chainCall?)
      ((node.walk Session.hook).run.run session) ∧
    (node.children.filterMap session.chainCall?).length = node.children.length ∧
    (∀ final, (node.walk Session.hook).run.run session = (.ok (), final) →
      final.emitter.sink.text = session.emitter.sink.text ++ String.join
        (Emission.texts (session.emitter.emissions
          (node.children.filterMap session.chainCall?)))) ∧
    (session.emitter.sink.limit = none →
      ((node.walk Session.hook).run.run session).1 = .ok ()) ∧
    ((∃ final, (node.walk Session.hook).run.run session = (.ok (), final) ∧
      final.emitter.sink.text = session.emitter.sink.text) ↔ node.children = []) := by
  have writes := skipped_onlyWrites outside content valid chains
  rw [← run_walk] at writes
  refine ⟨writes, ?_, fun _ ended => writes.performs.text_of_ok ended, fun unlimited => ?_, ?_⟩
  · refine List.filterMap_length_eq_length.mpr fun child member => ?_
    obtain ⟨statement, call⟩ := session.exists_chainCall? (chains child member).1
    rw [call]
    rfl
  · rw [writes.performs.result, Emitter.performAll_of_unlimited unlimited]
    rfl
  · constructor
    · rintro ⟨final, ended, same⟩
      have added := writes.performs.text_of_ok ended
      rw [same, ← String.toList_inj, String.toList_append, List.self_eq_append_right,
        String.toList_eq_nil_iff] at added
      cases children : node.children with
      | nil => rfl
      | cons child others =>
        obtain ⟨statement, call⟩ :=
          session.exists_chainCall? (chains child (by simp [children])).1
        rw [children, List.filterMap_cons_some call] at added
        exact absurd added (join_texts_ne_empty _ _ _ _)
    · intro childless
      have performed := writes.performs
      rw [childless, List.filterMap_nil] at performed
      refine ⟨_, Prod.ext performed.result rfl, ?_⟩
      rw [performed.emitter]
      rfl

/-- An assignment with two chains below it. -/
def chainedAssignment : Node :=
  ⟨2, .assignment ⟨"x", some "Integer", none⟩,
    [⟨3, .chain [⟨"y", none⟩, ⟨"count", none⟩], []⟩, ⟨4, .chain [⟨"z", none⟩], []⟩]⟩

/-- At the start of a transcription both chains of that assignment are written. -/
theorem assignments_outside_bodies_chained :
    OnlyWrites (start ⟨.compact, false⟩ {}) [.write "y.count" 1 true, .write "z" 1 true]
      ((chainedAssignment.walk Session.hook).run.run (start ⟨.compact, false⟩ {})) := by
  have valid : ∀ type ∈ some "Integer", TypeTag.isSpelled type = true := by
    rintro type ⟨⟩
    decide +kernel
  have chains : ∀ child ∈ chainedAssignment.children,
      child.kind = .classAccess ∧ child.children = [] := by
    simp [chainedAssignment, Node.kind, Content.kind]
  have calls : chainedAssignment.children.filterMap (start ⟨.compact, false⟩ {}).chainCall? =
      [.write "y.count" 1 true, .write "z" 1 true] := by decide +kernel
  rw [← calls]
  exact (assignments_outside_bodies rfl rfl valid chains).1

/-- The assignment is left out, but text is added all the same. -/
theorem chains_of_skipped_assignment :
    ((Program.mk 1 [chainedAssignment]).transcribe ⟨.compact, false⟩ {}).result = .ok () ∧
    ((Program.mk 1 [chainedAssignment]).transcribe ⟨.compact, false⟩ {}).session.emitter.sink.text =
      "y.count;z;" := by
  decide +kernel

end Session

end Treescribe
