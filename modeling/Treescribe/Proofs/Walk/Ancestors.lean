import Mathlib.Data.List.Forall2
import Treescribe.Proofs.Outcome
import Treescribe.Proofs.Walk.Listener

/-!
# Visits and their ancestors

Every visit of a walk has its place: the nodes above what is visited, the nearest one
first. An invariant of a listener that follows the tree, `Lexical`, speaks of the state
and of the nodes around the current place. It need only be kept by the single hooks;
`Lexical.calls` then has it at every hook that a walk calls.
-/

namespace Treescribe

/-- A visit, with the nodes above what is visited, the nearest one first. -/
structure PlacedVisit where
  ancestors : List Node
  visit : Visit

/-- The nodes that have been entered and not left before a visit, the nearest one first.
A node is around its own exit, but not around its own entry. -/
def PlacedVisit.around (placed : PlacedVisit) : List Node :=
  match placed.visit with
  | .exit (.inner node) => node :: placed.ancestors
  | _ => placed.ancestors

namespace Node

mutual

/-- The visits of a subtree with their places, given the nodes above it. -/
def placedVisits (ancestors : List Node) : Node → List PlacedVisit
  | ⟨id, content, children⟩ =>
    ⟨ancestors, .enter (.inner ⟨id, content, children⟩)⟩ ::
      placedVisitsAll (⟨id, content, children⟩ :: ancestors) children ++
        [⟨ancestors, .exit (.inner ⟨id, content, children⟩)⟩]

/-- The visits of several subtrees with their places, given the nodes above them. -/
def placedVisitsAll (ancestors : List Node) : List Node → List PlacedVisit
  | [] => []
  | node :: rest => placedVisits ancestors node ++ placedVisitsAll ancestors rest

end

/-- The visits of several subtrees are placed in each of them. -/
theorem placedVisitsAll_eq_flatMap (ancestors nodes : List Node) :
    placedVisitsAll ancestors nodes = nodes.flatMap (placedVisits ancestors) := by
  induction nodes with
  | nil => simp [placedVisitsAll]
  | cons node rest inductionHypothesis => simp [placedVisitsAll, inductionHypothesis]

/-- A node is above the nodes below it. -/
theorem placedVisits_eq (ancestors : List Node) (node : Node) :
    node.placedVisits ancestors =
      ⟨ancestors, .enter (.inner node)⟩ ::
        node.children.flatMap (placedVisits (node :: ancestors)) ++
          [⟨ancestors, .exit (.inner node)⟩] := by
  cases node with
  | mk id content children => rw [placedVisits, placedVisitsAll_eq_flatMap]

/-- Placing the visits of a subtree changes neither them nor their order. -/
theorem map_placedVisits (ancestors : List Node) (node : Node) :
    (node.placedVisits ancestors).map (·.visit) = node.visits := by
  induction node using byChildren generalizing ancestors with
  | step node inductionHypothesis =>
    rw [placedVisits_eq, visits_eq, List.map_append, List.map_cons, List.map_flatMap,
      List.flatMap_congr fun child member => inductionHypothesis child member _]
    rfl

end Node

namespace Program

/-- The visits of a walk through a program with their places, in order. -/
def placedVisits (program : Program) : List PlacedVisit :=
  ⟨[], .enter (.root program)⟩ :: Node.placedVisitsAll [] program.children ++
    [⟨[], .exit (.root program)⟩]

/-- Placing the visits of a program changes neither them nor their order. -/
theorem map_placedVisits (program : Program) :
    program.placedVisits.map (·.visit) = program.visits := by
  rw [placedVisits, visits, Node.placedVisitsAll_eq_flatMap, Node.visitsAll_eq_flatMap,
    List.map_append, List.map_cons, List.map_flatMap,
    List.flatMap_congr fun child _ => Node.map_placedVisits [] child]
  rfl

end Program

namespace Listener

variable {State Error : Type} (listener : Listener State Error)

/-- The hooks of visits succeed where the first one does and the others do on the state
that it leaves. -/
theorem run_cons_ok_iff {visit : Visit} {rest : List Visit} {start final : State} :
    listener.run (visit :: rest) start = (.ok (), final) ↔
      ∃ next, listener.call visit start = (.ok (), next) ∧
        listener.run rest next = (.ok (), final) := by
  rcases answer : listener.call visit start with ⟨_ | ⟨⟩, next⟩ <;> simp [run, answer]

/-- The hooks of visits that follow others succeed on the state that those leave, if
those succeed. -/
theorem run_append_ok_iff {first second : List Visit} {start final : State} :
    listener.run (first ++ second) start = (.ok (), final) ↔
      ∃ middle, listener.run first start = (.ok (), middle) ∧
        listener.run second middle = (.ok (), final) := by
  induction first generalizing start with
  | nil => simp [run]
  | cons visit rest inductionHypothesis =>
    simp only [List.cons_append, run_cons_ok_iff, inductionHypothesis]
    constructor
    · rintro ⟨next, called, middle, passed, ended⟩
      exact ⟨middle, ⟨next, called, passed⟩, ended⟩
    · rintro ⟨middle, ⟨next, called, passed⟩, ended⟩
      exact ⟨next, called, middle, passed, ended⟩

/-- The calls of visits that follow others are made on the state that those leave, if those
succeed. -/
theorem trace_append {first second : List Visit} {start middle : State}
    (passed : listener.run first start = (.ok (), middle)) :
    listener.trace (first ++ second) start =
      listener.trace first start ++ listener.trace second middle := by
  induction first generalizing start with
  | nil =>
    cases passed
    rfl
  | cons visit rest inductionHypothesis =>
    obtain ⟨next, called, passed⟩ := listener.run_cons_ok_iff.mp passed
    simp only [List.cons_append, trace, called]
    exact congrArg _ (inductionHypothesis passed)

/-- A subtree is walked to the end where its root is entered, the subtrees below it are
walked and it is left again. -/
theorem run_visits_ok_iff {node : Node} {start final : State} :
    listener.run node.visits start = (.ok (), final) ↔
      ∃ inner last, listener.call (.enter (.inner node)) start = (.ok (), inner) ∧
        listener.run (node.children.flatMap Node.visits) inner = (.ok (), last) ∧
        listener.call (.exit (.inner node)) last = (.ok (), final) := by
  rw [Node.visits_eq, List.cons_append, run_cons_ok_iff]
  simp only [run_append_ok_iff, run_cons_ok_iff]
  constructor
  · rintro ⟨inner, entered, last, passed, next, left, ended⟩
    cases ended
    exact ⟨inner, last, entered, passed, left⟩
  · rintro ⟨inner, last, entered, passed, left⟩
    exact ⟨inner, entered, last, passed, final, left, rfl⟩

/-- What holds at each of some placed visits when its hook is called, as far as the hooks
succeed. -/
def Along (holds : PlacedVisit → State → Prop) : List PlacedVisit → State → Prop
  | [], _ => True
  | placed :: rest, state =>
    holds placed state ∧
      ∀ next, listener.call placed.visit state = (.ok (), next) → Along holds rest next

variable {listener} {holds : PlacedVisit → State → Prop}

/-- What holds along visits holds along their parts, the second on the states that the
first leaves. -/
theorem along_append_iff {first second : List PlacedVisit} {start : State} :
    listener.Along holds (first ++ second) start ↔
      listener.Along holds first start ∧
        ∀ middle, listener.run (first.map (·.visit)) start = (.ok (), middle) →
          listener.Along holds second middle := by
  induction first generalizing start with
  | nil => simp [Along, run]
  | cons placed rest inductionHypothesis =>
    rcases answer : listener.call placed.visit start with ⟨_ | ⟨⟩, next⟩
    · simp [Along, run, answer]
    · simp [Along, run, answer, inductionHypothesis, and_assoc]

/-- What holds along visits holds at the calls of their hooks, one by one. -/
theorem Along.trace {visits : List PlacedVisit} {start : State}
    (along : listener.Along holds visits start) :
    List.Forall₂ (fun placed called => placed.visit = called.1 ∧ holds placed called.2)
      (visits.take (listener.trace (visits.map (·.visit)) start).length)
      (listener.trace (visits.map (·.visit)) start) := by
  induction visits generalizing start with
  | nil => exact .nil
  | cons placed rest inductionHypothesis =>
    rw [List.map_cons, Listener.trace, List.length_cons, List.take_succ_cons]
    refine .cons ⟨rfl, along.1⟩ ?_
    rcases answer : listener.call placed.visit start with ⟨_ | ⟨⟩, next⟩
    · exact .nil
    · exact inductionHypothesis (along.2 next answer)

/-- If it is known from the place of a visit how its hook fails, the hooks of visits fail
as that of the first one which does. -/
theorem Along.failure? {fails : PlacedVisit → Option Error} {visits : List PlacedVisit}
    {start : State} (along : listener.Along holds visits start)
    (known : ∀ placed state, holds placed state →
      Treescribe.failure? (listener.call placed.visit state).1 = fails placed) :
    Treescribe.failure? (listener.run (visits.map (·.visit)) start).1 = visits.findSome? fails := by
  induction visits generalizing start with
  | nil => rfl
  | cons placed rest inductionHypothesis =>
    have first := known placed start along.1
    rw [List.map_cons, run, List.findSome?_cons, ← first]
    rcases answer : listener.call placed.visit start with ⟨_ | ⟨⟩, next⟩
    · rfl
    · exact inductionHypothesis (along.2 next answer)

end Listener

/-- An invariant that follows the tree: it speaks of the nodes around a place and of the
state there. Each hook that succeeds keeps it, where entering a node puts that node
around and leaving it takes it away again. -/
structure Lexical {State Error : Type} (listener : Listener State Error)
    (invariant : List Node → State → Prop) : Prop where
  enterRoot {program : Program} {state next : State} (before : invariant [] state)
    (entered : listener.call (.enter (.root program)) state = (.ok (), next)) : invariant [] next
  enter {above : List Node} {node : Node} {state next : State} (before : invariant above state)
    (entered : listener.call (.enter (.inner node)) state = (.ok (), next)) :
    invariant (node :: above) next
  exit {above : List Node} {node : Node} {state next : State}
    (before : invariant (node :: above) state)
    (left : listener.call (.exit (.inner node)) state = (.ok (), next)) : invariant above next

namespace Lexical

variable {State Error : Type} {listener : Listener State Error}
  {invariant : List Node → State → Prop}

/-- An invariant holds along visits at a place and is back where they end. -/
def Kept (listener : Listener State Error) (invariant : List Node → State → Prop)
    (above : List Node) (visits : List PlacedVisit) : Prop :=
  ∀ state, invariant above state →
    listener.Along (fun placed => invariant placed.around) visits state ∧
      ∀ final, listener.run (visits.map (·.visit)) state = (.ok (), final) → invariant above final

/-- What is kept by each of several subtrees is kept by them together. -/
theorem kept_flatMap {above nodes : List Node}
    (each : ∀ node ∈ nodes, Kept listener invariant above (node.placedVisits above)) :
    Kept listener invariant above (nodes.flatMap (Node.placedVisits above)) := by
  induction nodes with
  | nil =>
    intro state before
    refine ⟨trivial, fun final ended => ?_⟩
    cases ended
    exact before
  | cons node rest inductionHypothesis =>
    intro state before
    have others := inductionHypothesis fun other member => each other (by simp [member])
    obtain ⟨along, back⟩ := each node (by simp) state before
    rw [List.flatMap_cons, List.map_append, Listener.along_append_iff]
    refine ⟨⟨along, fun middle passed => (others middle (back middle passed)).1⟩, ?_⟩
    intro final ended
    obtain ⟨middle, passed, rest⟩ := listener.run_append_ok_iff.mp ended
    exact (others middle (back middle passed)).2 final rest

/-- A lexical invariant is kept by the walk through a subtree. -/
theorem kept (lexical : Lexical listener invariant) (above : List Node) (node : Node) :
    Kept listener invariant above (node.placedVisits above) := by
  induction node using Node.byChildren generalizing above with
  | step node inductionHypothesis =>
    intro state before
    have below := kept_flatMap fun child member => inductionHypothesis child member (node :: above)
    rw [Node.placedVisits_eq, List.cons_append]
    refine ⟨⟨before, fun inner entered => ?_⟩, fun final ended => ?_⟩
    · -- Between entry and exit the node itself is around.
      obtain ⟨along, back⟩ := below inner (lexical.enter before entered)
      exact Listener.along_append_iff.mpr
        ⟨along, fun middle passed => ⟨back middle passed, fun _ _ => trivial⟩⟩
    · rw [List.map_cons, List.map_append] at ended
      obtain ⟨inner, entered, ended⟩ := listener.run_cons_ok_iff.mp ended
      obtain ⟨middle, passed, ended⟩ := listener.run_append_ok_iff.mp ended
      obtain ⟨last, left, ended⟩ := listener.run_cons_ok_iff.mp ended
      cases ended
      exact lexical.exit ((below inner (lexical.enter before entered)).2 middle passed) left

/-- A lexical invariant that holds before a walk holds along all its visits, for the nodes
around their places. -/
theorem along (lexical : Lexical listener invariant) (program : Program) {start : State}
    (before : invariant [] start) :
    listener.Along (fun placed => invariant placed.around) program.placedVisits start := by
  have below := kept_flatMap fun child (_ : child ∈ program.children) => lexical.kept [] child
  rw [Program.placedVisits, Node.placedVisitsAll_eq_flatMap, List.cons_append]
  refine ⟨before, fun inner entered => ?_⟩
  obtain ⟨along, back⟩ := below inner (lexical.enterRoot before entered)
  exact Listener.along_append_iff.mpr
    ⟨along, fun middle passed => ⟨back middle passed, fun _ _ => trivial⟩⟩

/-- A lexical invariant that holds before a walk holds at every hook which the walk calls,
for the nodes around the place of the call. -/
theorem calls (lexical : Lexical listener invariant) (program : Program) {start : State}
    (before : invariant [] start) :
    List.Forall₂ (fun placed called => placed.visit = called.1 ∧ invariant placed.around called.2)
      (program.placedVisits.take (listener.calls program start).length)
      (listener.calls program start) := by
  rw [Listener.calls_eq_trace, ← Program.map_placedVisits]
  exact (lexical.along program before).trace

/-- What every hook keeps wherever it is called may be assumed of a lexical invariant. -/
theorem and_kept (lexical : Lexical listener invariant) (always : State → Prop)
    (kept : ∀ visit state, always state → always (listener.call visit state).2) :
    Lexical listener fun around state => invariant around state ∧ always state where
  enterRoot {program state next} before entered := by
    have still := kept (.enter (.root program)) state before.2
    rw [entered] at still
    exact ⟨lexical.enterRoot before.1 entered, still⟩
  enter {above node state next} before entered := by
    have still := kept (.enter (.inner node)) state before.2
    rw [entered] at still
    exact ⟨lexical.enter before.1 entered, still⟩
  exit {above node state next} before left := by
    have still := kept (.exit (.inner node)) state before.2
    rw [left] at still
    exact ⟨lexical.exit before.1 left, still⟩

end Lexical

end Treescribe
