import Treescribe.Proofs.Walk.Ancestors

/-!
# Places in a program

A place is a program from which one node is left out: the nodes above it, outermost first,
each with its children on both sides of it. `Place.fill` puts a node there. A walk through
a program that is filled so visits what stands before the place, then the node, then what
stands behind, and every node of a program fills a place of it, `Program.exists_place`.
-/

namespace Treescribe

/-- A node above a place, with its children before and behind the one that leads there. -/
structure Level where
  id : UInt64
  content : Content
  before : List Node
  behind : List Node

namespace Level

/-- The node of a level, with a child between its other children. -/
def around (level : Level) (child : Node) : Node :=
  ⟨level.id, level.content, level.before ++ child :: level.behind⟩

/-- The subtree with a node below some levels, the outermost one first. -/
def fill (levels : List Level) (node : Node) : Node :=
  levels.foldr around node

/-- The visits below some levels before a node is entered there. -/
def visitsBefore : List Level → Node → List Visit
  | [], _ => []
  | level :: inner, node =>
    .enter (.inner (level.around (fill inner node))) :: level.before.flatMap Node.visits ++
      visitsBefore inner node

/-- The visits below some levels after a node is left there. -/
def visitsBehind : List Level → Node → List Visit
  | [], _ => []
  | level :: inner, node =>
    visitsBehind inner node ++
      (level.behind.flatMap Node.visits ++ [.exit (.inner (level.around (fill inner node)))])

/-- The nodes above a place, the nearest one first, given those above its levels. -/
def ancestors (above : List Node) : List Level → Node → List Node
  | [], _ => above
  | level :: inner, node => ancestors (level.around (fill inner node) :: above) inner node

/-- The visits of a subtree are those around a node in it and those of the node. -/
theorem visits_fill (levels : List Level) (node : Node) :
    (fill levels node).visits =
      visitsBefore levels node ++ node.visits ++ visitsBehind levels node := by
  induction levels with
  | nil => simp [fill, visitsBefore, visitsBehind]
  | cons level inner inductionHypothesis =>
    have filled : fill (level :: inner) node = level.around (fill inner node) := rfl
    rw [filled, Node.visits_eq, around, List.flatMap_append, List.flatMap_cons,
      inductionHypothesis, visitsBefore, visitsBehind, around]
    simp only [List.cons_append, List.append_assoc]

/-- What is above the levels of a place is above the place. -/
theorem mem_ancestors_of_mem {above : List Node} {ancestor : Node} (member : ancestor ∈ above)
    (levels : List Level) (node : Node) : ancestor ∈ ancestors above levels node := by
  induction levels generalizing above with
  | nil => exact member
  | cons level inner inductionHypothesis =>
    exact inductionHypothesis (List.mem_cons_of_mem _ member)

/-- Every level of a place is that of a node above it. -/
theorem exists_ancestor {levels : List Level} {level : Level} (member : level ∈ levels)
    (above : List Node) (node : Node) :
    ∃ ancestor ∈ ancestors above levels node, ancestor.content = level.content := by
  induction levels generalizing above with
  | nil => cases member
  | cons first inner inductionHypothesis =>
    rcases List.mem_cons.mp member with rfl | member
    · exact ⟨_, mem_ancestors_of_mem List.mem_cons_self inner node, rfl⟩
    · exact inductionHypothesis member _

end Level

/-- A program from which one node is left out: its children before and behind the subtree of
that node, and the levels of that subtree. -/
structure Place where
  id : UInt64
  before : List Node
  levels : List Level
  behind : List Node

namespace Place

/-- The program with a node at a place. -/
def fill (place : Place) (node : Node) : Program :=
  ⟨place.id, place.before ++ Level.fill place.levels node :: place.behind⟩

/-- The visits before a node is entered at a place. -/
def visitsBefore (place : Place) (node : Node) : List Visit :=
  .enter (.root (place.fill node)) :: place.before.flatMap Node.visits ++
    Level.visitsBefore place.levels node

/-- The visits after a node is left at a place. -/
def visitsBehind (place : Place) (node : Node) : List Visit :=
  Level.visitsBehind place.levels node ++
    (place.behind.flatMap Node.visits ++ [.exit (.root (place.fill node))])

/-- The nodes above a node at a place, the nearest one first. -/
def ancestors (place : Place) (node : Node) : List Node :=
  Level.ancestors [] place.levels node

/-- The visits of a program are those around a node in it and those of the node. -/
theorem visits_fill (place : Place) (node : Node) :
    (place.fill node).visits =
      place.visitsBefore node ++ node.visits ++ place.visitsBehind node := by
  rw [Program.visits, Node.visitsAll_eq_flatMap, fill, List.flatMap_append, List.flatMap_cons,
    Level.visits_fill, visitsBefore, visitsBehind, fill]
  simp only [List.cons_append, List.append_assoc]

end Place

/-- A list falls into what is before an item, the item and what is behind it. -/
theorem split_of_getElem? {α : Type} {items : List α} {number : Nat} {item : α}
    (found : items[number]? = some item) :
    items = items.take number ++ item :: items.drop (number + 1) := by
  obtain ⟨within, rfl⟩ := List.getElem?_eq_some_iff.mp found
  rw [List.getElem_cons_drop, List.take_append_drop]

/-- An item among the lists of several inputs is in the list of one of them, behind the lists
of the inputs before. -/
theorem split_of_flatMap {α β : Type} {list : α → List β} {inputs : List α}
    {first rest : List β} {item : β} (split : inputs.flatMap list = first ++ item :: rest) :
    ∃ before input behind earlier later, inputs = before ++ input :: behind ∧
      list input = earlier ++ item :: later ∧ first = before.flatMap list ++ earlier := by
  induction inputs generalizing first with
  | nil => simp at split
  | cons input others inductionHypothesis =>
    rw [List.flatMap_cons] at split
    -- Either the list of the first input ends before the item, or the item is in it.
    have cases : (∃ more, first = list input ++ more ∧ others.flatMap list = more ++ item :: rest) ∨
        ∃ later, list input = first ++ item :: later := by
      rcases List.append_eq_append_iff.mp split with ⟨more, start, tail⟩ | ⟨more, whole, tail⟩
      · exact .inl ⟨more, start, tail⟩
      · cases more with
        | nil => exact .inl ⟨[], by simp [whole], tail.symm⟩
        | cons head later =>
          cases tail
          exact .inr ⟨later, whole⟩
    rcases cases with ⟨more, start, tail⟩ | ⟨later, inside⟩
    · obtain ⟨before, found, behind, earlier, later, place, inside, reached⟩ :=
        inductionHypothesis tail
      refine ⟨input :: before, found, behind, earlier, later, by rw [place]; rfl, inside, ?_⟩
      rw [start, reached, List.flatMap_cons, List.append_assoc]
    · exact ⟨[], input, others, first, later, rfl, inside, rfl⟩

namespace Node

/-- A node that is entered among the visits of several subtrees, and before a visit which is
no entry, is entered in one of them, behind the visits of those before. -/
theorem exists_subtree {nodes : List Node} {target : Node} {last : Visit}
    {ahead rest : List Visit} (other : last ≠ .enter (.inner target))
    (entered : nodes.flatMap visits ++ [last] = ahead ++ .enter (.inner target) :: rest) :
    ∃ before node behind earlier later, nodes = before ++ node :: behind ∧
      node.visits = earlier ++ .enter (.inner target) :: later ∧
      ahead = before.flatMap visits ++ earlier := by
  rcases List.eq_nil_or_concat rest with rfl | ⟨later, final, rfl⟩
  · have final := congrArg List.getLast? entered
    simp [other] at final
  · have below : nodes.flatMap visits = ahead ++ .enter (.inner target) :: later := by
      rw [List.concat_eq_append, ← List.cons_append, ← List.append_assoc] at entered
      exact List.append_inj_left' entered rfl
    exact split_of_flatMap below

/-- A node that is entered in a walk through a subtree stands below some levels of it, behind
the visits before. -/
theorem exists_levels {node target : Node} {ahead rest : List Visit}
    (entered : node.visits = ahead ++ .enter (.inner target) :: rest) :
    ∃ levels, node = Level.fill levels target ∧ Level.visitsBefore levels target = ahead := by
  induction node using byChildren generalizing ahead rest with
  | step node inductionHypothesis =>
    rw [visits_eq] at entered
    cases ahead with
    | nil =>
      cases entered
      exact ⟨[], rfl, rfl⟩
    | cons first ahead =>
      obtain ⟨rfl, below⟩ := List.cons.inj entered
      obtain ⟨before, child, behind, earlier, later, children, inside, rfl⟩ :=
        exists_subtree (by simp) below
      obtain ⟨levels, rfl, reached⟩ := inductionHypothesis child (by simp [children]) inside
      have whole : (⟨node.id, node.content, before, behind⟩ : Level).around
          (Level.fill levels target) = node := by
        cases node with
        | mk id content nodes => exact congrArg (Node.mk id content) children.symm
      refine ⟨⟨node.id, node.content, before, behind⟩ :: levels, whole.symm, ?_⟩
      rw [Level.visitsBefore, whole, reached]
      rfl

end Node

/-- Every node that is entered in a walk through a program fills a place of it, behind the
visits before. -/
theorem Program.exists_place {program : Program} {number : Nat} {node : Node}
    (entered : program.visits[number]? = some (.enter (.inner node))) :
    ∃ place : Place, program = place.fill node ∧
      place.visitsBefore node = program.visits.take number := by
  have split := split_of_getElem? entered
  generalize program.visits.take number = ahead at split ⊢
  rw [visits, Node.visitsAll_eq_flatMap] at split
  cases ahead with
  | nil => cases split
  | cons first ahead =>
    obtain ⟨rfl, below⟩ := List.cons.inj split
    obtain ⟨before, child, behind, earlier, later, children, inside, rfl⟩ :=
      Node.exists_subtree (by simp) below
    obtain ⟨levels, rfl, reached⟩ := Node.exists_levels inside
    have whole : (⟨program.id, before, levels, behind⟩ : Place).fill node = program :=
      congrArg (Program.mk program.id) children.symm
    refine ⟨⟨program.id, before, levels, behind⟩, whole.symm, ?_⟩
    rw [Place.visitsBefore, whole, reached]
    rfl

/-- Once a walk through a program has entered a node, it walks the subtrees below one after
another. -/
theorem Program.visits_to_child {program : Program} {number : Nat} {node child : Node}
    {before behind : List Node} (entered : program.visits[number]? = some (.enter (.inner node)))
    (children : node.children = before ++ child :: behind) :
    ∃ rest, program.visits.drop number =
      (.enter (.inner node) :: before.flatMap Node.visits) ++ .enter (.inner child) :: rest := by
  obtain ⟨place, rfl, reached⟩ := exists_place entered
  have whole : (place.fill node).visits.take number ++ (place.fill node).visits.drop number =
      (place.fill node).visits.take number ++ (node.visits ++ place.visitsBehind node) := by
    rw [List.take_append_drop, ← reached, ← List.append_assoc, ← place.visits_fill]
  rw [List.append_cancel_left whole, node.visits_eq, children, List.flatMap_append,
    List.flatMap_cons, child.visits_eq]
  simp only [List.cons_append, List.append_assoc]
  exact ⟨_, rfl⟩

namespace Listener

variable {State Error : Type} (listener : Listener State Error)

/-- A hook is called exactly if those of the visits before succeed, on the state that they
leave. -/
theorem getElem?_trace_eq_some_iff {visits : List Visit} {start state : State} {number : Nat}
    {visit : Visit} :
    (listener.trace visits start)[number]? = some (visit, state) ↔
      visits[number]? = some visit ∧
        listener.run (visits.take number) start = (.ok (), state) := by
  induction visits generalizing start number with
  | nil => simp [trace]
  | cons first rest inductionHypothesis =>
    rw [trace]
    cases number with
    | zero => simp [run]
    | succ number =>
      rw [List.getElem?_cons_succ, List.getElem?_cons_succ, List.take_succ_cons, run]
      rcases listener.call first start with ⟨_ | ⟨⟩, next⟩
      · simp
      · exact inductionHypothesis

/-- Where all hooks succeed, all are called. -/
theorem length_trace_of_ok {visits : List Visit} {start final : State}
    (passed : listener.run visits start = (.ok (), final)) :
    (listener.trace visits start).length = visits.length := by
  induction visits generalizing start with
  | nil => rfl
  | cons visit rest inductionHypothesis =>
    obtain ⟨next, called, went⟩ := listener.run_cons_ok_iff.mp passed
    rw [trace, called, List.length_cons, List.length_cons]
    exact congrArg (· + 1) (inductionHypothesis went)

/-- From the call of a hook on, the calls are those of the visits from there on. -/
theorem drop_trace {visits : List Visit} {start state : State} {number : Nat} {visit : Visit}
    (called : (listener.trace visits start)[number]? = some (visit, state)) :
    (listener.trace visits start).drop number = listener.trace (visits.drop number) state := by
  induction visits generalizing start number with
  | nil => cases called
  | cons first rest inductionHypothesis =>
    cases number with
    | zero =>
      cases called
      rfl
    | succ number =>
      rw [trace, List.drop_succ_cons, List.drop_succ_cons]
      rw [trace, List.getElem?_cons_succ] at called
      rcases answer : listener.call first start with ⟨_ | ⟨⟩, next⟩ <;> rw [answer] at called
      · cases called
      · exact inductionHypothesis called

/-- Where a node is entered and its children before another are walked, the other is entered
next. -/
theorem calls_to_child {program : Program} {start state next reached : State} {number : Nat}
    {node child : Node} {before behind : List Node}
    (called : (listener.calls program start)[number]? = some (.enter (.inner node), state))
    (children : node.children = before ++ child :: behind)
    (entered : listener.call (.enter (.inner node)) state = (.ok (), next))
    (passed : listener.run (before.flatMap Node.visits) next = (.ok (), reached)) :
    ((listener.calls program start).drop number).take ((before.flatMap Node.visits).length + 2) =
      (.enter (.inner node), state) :: listener.trace (before.flatMap Node.visits) next ++
        [(.enter (.inner child), reached)] := by
  rw [calls_eq_trace] at called ⊢
  obtain ⟨rest, onwards⟩ :=
    Program.visits_to_child (listener.getElem?_trace_eq_some_iff.mp called).1 children
  rw [listener.drop_trace called, onwards, List.cons_append, trace, entered, List.take_succ_cons]
  refine congrArg _ ?_
  rw [← listener.length_trace_of_ok passed]
  exact (congrArg _ (listener.trace_append passed)).trans (List.take_length_add_append 1)

/-- The hook of a node at a place is called exactly if those of the visits before succeed, on
the state that they leave. -/
theorem calls_at_place_iff {place : Place} {node : Node} {start state : State} :
    (listener.calls (place.fill node) start)[(place.visitsBefore node).length]? =
        some (.enter (.inner node), state) ↔
      listener.run (place.visitsBefore node) start = (.ok (), state) := by
  rw [calls_eq_trace, getElem?_trace_eq_some_iff, place.visits_fill, List.append_assoc,
    List.take_left, List.getElem?_append_right Nat.le.refl, Nat.sub_self, node.visits_eq]
  exact and_iff_right rfl

end Listener

namespace Lexical

variable {State Error : Type} {listener : Listener State Error}
  {invariant : List Node → State → Prop}

/-- What is kept by subtrees is kept by a walk through them. -/
theorem back (lexical : Lexical listener invariant) {above nodes : List Node}
    {state final : State} (before : invariant above state)
    (walked : listener.run (nodes.flatMap Node.visits) state = (.ok (), final)) :
    invariant above final := by
  have kept := kept_flatMap fun node (_ : node ∈ nodes) => lexical.kept above node
  refine (kept state before).2 final ?_
  rw [List.map_flatMap, List.flatMap_congr fun node _ => Node.map_placedVisits above node]
  exact walked

/-- A lexical invariant holds below some levels for the nodes above. -/
theorem below_levels (lexical : Lexical listener invariant) {above : List Node}
    {levels : List Level} {node : Node} {state final : State} (before : invariant above state)
    (walked : listener.run (Level.visitsBefore levels node) state = (.ok (), final)) :
    invariant (Level.ancestors above levels node) final := by
  induction levels generalizing above state with
  | nil =>
    cases walked
    exact before
  | cons level inner inductionHypothesis =>
    rw [Level.visitsBefore, List.cons_append] at walked
    obtain ⟨next, entered, walked⟩ := listener.run_cons_ok_iff.mp walked
    obtain ⟨middle, passed, walked⟩ := listener.run_append_ok_iff.mp walked
    exact inductionHypothesis (lexical.back (lexical.enter before entered) passed) walked

/-- A lexical invariant that holds before a walk holds at a place for the nodes above it. -/
theorem at_place (lexical : Lexical listener invariant) {place : Place} {node : Node}
    {start state : State} (before : invariant [] start)
    (walked : listener.run (place.visitsBefore node) start = (.ok (), state)) :
    invariant (place.ancestors node) state := by
  rw [Place.visitsBefore, List.cons_append] at walked
  obtain ⟨next, entered, walked⟩ := listener.run_cons_ok_iff.mp walked
  obtain ⟨middle, passed, walked⟩ := listener.run_append_ok_iff.mp walked
  exact lexical.below_levels (lexical.back (lexical.enterRoot before entered) passed) walked

end Lexical

end Treescribe
