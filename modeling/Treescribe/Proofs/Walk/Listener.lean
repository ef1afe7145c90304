import Mathlib.Data.List.Forall2
import Treescribe.Proofs.Nodes

/-!
# Listeners

A listener has a hook for the way into and for the way out of each kind of node. A
walk calls the hooks of the visits of a program one after another and stops at the
first that fails; which hooks it calls, and on which states, is seen by walking with a
listener that keeps a record. The visits are properly nested pairs, one for the program
and one for each node below it.
-/

namespace Treescribe

/-- What is done on the way into and out of each kind of node. A hook may change a
state, also when it fails. -/
structure Listener (State Error : Type) where
  enter : Kind → Subject → State → Except Error Unit × State
  exit : Kind → Subject → State → Except Error Unit × State

/-- What is visited. -/
def Visit.subject : Visit → Subject
  | .enter subject | .exit subject => subject

/-- The kind of what is visited. -/
def Visit.kind (visit : Visit) : Kind :=
  visit.subject.kind

/-- A call of a hook: the kind of nodes that the hook is for, the visit that it is called for and
the state before. -/
structure HookCall (State : Type) where
  kind : Kind
  visit : Visit
  state : State

/-- The call, on a state, of the hook for the kind of what is visited. -/
def HookCall.own {State : Type} (called : Visit × State) : HookCall State :=
  ⟨called.1.kind, called.1, called.2⟩

namespace Listener

variable {State Error : Type} (listener : Listener State Error)

/-- Calls the hook of a visit, which is the one for the kind of what is visited. -/
def call : Visit → State → Except Error Unit × State
  | .enter subject, state => listener.enter subject.kind subject state
  | .exit subject, state => listener.exit subject.kind subject state

/-- The hook of a visit as a computation that may stop, keeping the state it reached. -/
def hook (visit : Visit) : ExceptT Error (StateM State) Unit :=
  ExceptT.mk fun state => listener.call visit state

/-- Walks a program: the result, and the state that the last hook left. -/
def walk (program : Program) (start : State) : Except Error Unit × State :=
  (program.walk listener.hook).run.run start

/-- Calls the hooks of visits one after another, up to the first that fails. -/
def run : List Visit → State → Except Error Unit × State
  | [], state => (.ok (), state)
  | visit :: rest, state =>
    match listener.call visit state with
    | (.ok (), next) => run rest next
    | (.error error, next) => (.error error, next)

/-- The same listener, which also records which of its hooks is called for which visit, with the
state before it. -/
def recorder : Listener (State × List (HookCall State)) Error where
  enter kind subject recorded :=
    let (result, next) := listener.enter kind subject recorded.1
    (result, next, recorded.2 ++ [⟨kind, .enter subject, recorded.1⟩])
  exit kind subject recorded :=
    let (result, next) := listener.exit kind subject recorded.1
    (result, next, recorded.2 ++ [⟨kind, .exit subject, recorded.1⟩])

/-- The hooks that a walk calls. -/
def record (program : Program) (start : State) : List (HookCall State) :=
  (listener.recorder.walk program (start, [])).2.2

/-- The visits that a walk makes, each with the state before it. -/
def calls (program : Program) (start : State) : List (Visit × State) :=
  (listener.record program start).map fun call => (call.visit, call.state)

/-- The calls of the hooks of visits, up to the first that fails. -/
def trace : List Visit → State → List (Visit × State)
  | [], _ => []
  | visit :: rest, state =>
    (visit, state) ::
      match listener.call visit state with
      | (.ok (), next) => trace rest next
      | (.error _, _) => []

/-- A hook before others runs on the state before them, which run on the state it leaves
unless it fails. -/
theorem hook_bind (visit : Visit) (others : ExceptT Error (StateM State) Unit) (start : State) :
    (listener.hook visit >>= fun _ => others).run.run start =
      match listener.call visit start with
      | (.ok (), next) => others.run.run next
      | (.error error, next) => (.error error, next) := by
  have opened : (listener.hook visit >>= fun _ => others).run.run start =
      ExceptT.bindCont (fun _ => others) (listener.call visit start).1
        (listener.call visit start).2 := rfl
  rw [opened]
  rcases listener.call visit start with ⟨_ | ⟨⟩, next⟩ <;> rfl

/-- A computation over a list of visits calls their hooks one after another. -/
theorem forM_hook (visits : List Visit) (start : State) :
    (visits.forM listener.hook).run.run start = listener.run visits start := by
  induction visits generalizing start with
  | nil => rfl
  | cons visit rest inductionHypothesis =>
    change (listener.hook visit >>= fun _ => rest.forM listener.hook).run.run start = _
    rw [hook_bind, run]
    split
    · exact inductionHypothesis _
    · rfl

/-- A walk calls the hooks of the visits of its program one after another. -/
theorem walk_eq_run (program : Program) (start : State) :
    listener.walk program start = listener.run program.visits start := by
  have linear : program.walk listener.hook = program.visits.forM listener.hook := by
    simp [Program.walk, Program.visits, Node.walkAll_eq_forM]
  rw [walk, linear, forM_hook]

/-- Recording a call does not change it. -/
theorem call_recorder (visit : Visit) (state : State) (record : List (HookCall State)) :
    listener.recorder.call visit (state, record) =
      ((listener.call visit state).1, (listener.call visit state).2,
        record ++ [.own (visit, state)]) := by
  cases visit <;> rfl

/-- Recording the calls of visits does not change them. -/
theorem run_recorder (visits : List Visit) (state : State) (record : List (HookCall State)) :
    listener.recorder.run visits (state, record) =
      ((listener.run visits state).1, (listener.run visits state).2,
        record ++ (listener.trace visits state).map .own) := by
  induction visits generalizing state record with
  | nil => simp [run, trace]
  | cons visit rest inductionHypothesis =>
    rw [run, call_recorder]
    rcases answer : listener.call visit state with ⟨_ | ⟨⟩, next⟩
    · simp [run, trace, answer]
    · simp [run, trace, answer, inductionHypothesis]

/-- The hooks that a walk calls are those for the kinds of what it visits. -/
theorem record_eq_trace (program : Program) (start : State) :
    listener.record program start = (listener.trace program.visits start).map .own := by
  rw [record, walk_eq_run, run_recorder]
  rfl

/-- The calls of a walk are those of the visits of its program. -/
theorem calls_eq_trace (program : Program) (start : State) :
    listener.calls program start = listener.trace program.visits start := by
  rw [calls, record_eq_trace, List.map_map]
  exact List.map_id _

/-- The hooks of visits all succeed and all are called, or those up to the first that
fails are called, whose error and state are the outcome. -/
theorem run_cases (visits : List Visit) (start : State) :
    (∃ final, listener.run visits start = (.ok (), final) ∧
      (listener.trace visits start).map Prod.fst = visits) ∨
    ∃ before visit after state error final, visits = before ++ visit :: after ∧
      listener.run before start = (.ok (), state) ∧
      listener.call visit state = (.error error, final) ∧
      listener.run visits start = (.error error, final) ∧
      (listener.trace visits start).map Prod.fst = before ++ [visit] := by
  induction visits generalizing start with
  | nil => exact .inl ⟨start, rfl, rfl⟩
  | cons visit rest inductionHypothesis =>
    rcases answer : listener.call visit start with ⟨error | ⟨⟩, next⟩
    · refine .inr ⟨[], visit, rest, start, error, next, rfl, rfl, answer, ?_, ?_⟩
      · simp [run, answer]
      · simp [trace, answer]
    · have goesOn : ∀ others, listener.run (visit :: others) start = listener.run others next := by
        intro others
        simp [run, answer]
      have recorded : listener.trace (visit :: rest) start =
          (visit, start) :: listener.trace rest next := by
        simp [trace, answer]
      rw [goesOn, recorded, List.map_cons]
      rcases inductionHypothesis next with ⟨final, passed, called⟩ |
        ⟨before, failing, after, state, error, final, place, passed, failed, result, called⟩
      · exact .inl ⟨final, passed, by rw [called]⟩
      · refine .inr ⟨visit :: before, failing, after, state, error, final, by rw [place]; rfl, ?_,
          failed, result, by rw [called]; rfl⟩
        rw [goesOn, passed]

/-- Two runs through the same visits whose hooks answer alike and keep the states related
end alike, with related states, and make the same calls on related states. -/
theorem run_related {related : State → State → Prop} {visits : List Visit}
    (step : ∀ visit ∈ visits, ∀ first second, related first second →
      (listener.call visit first).1 = (listener.call visit second).1 ∧
        related (listener.call visit first).2 (listener.call visit second).2)
    {first second : State} (before : related first second) :
    (listener.run visits first).1 = (listener.run visits second).1 ∧
      related (listener.run visits first).2 (listener.run visits second).2 ∧
      List.Forall₂
        (fun called other => called.1 = other.1 ∧ called.1 ∈ visits ∧ related called.2 other.2)
        (listener.trace visits first) (listener.trace visits second) := by
  induction visits generalizing first second with
  | nil => exact ⟨rfl, before, .nil⟩
  | cons visit rest inductionHypothesis =>
    obtain ⟨same, next⟩ := step visit (by simp) first second before
    have later := fun other member => step other (List.mem_cons_of_mem visit member)
    rw [run, run, trace, trace]
    rcases answer : listener.call visit first with ⟨_ | ⟨⟩, firstNext⟩ <;>
      rcases otherAnswer : listener.call visit second with ⟨_ | ⟨⟩, secondNext⟩ <;>
        rw [answer, otherAnswer] at same next <;> cases same
    · exact ⟨rfl, next, .cons ⟨rfl, by simp, before⟩ .nil⟩
    · obtain ⟨ended, final, calls⟩ := inductionHypothesis later next
      refine ⟨ended, final, .cons ⟨rfl, by simp, before⟩ (calls.imp ?_)⟩
      rintro called other ⟨visited, member, related⟩
      exact ⟨visited, by simp [member], related⟩

end Listener

/-- What a visit enters. -/
def Visit.entered? : Visit → Option Subject
  | .enter subject => some subject
  | .exit _ => none

/-- What a visit leaves. -/
def Visit.left? : Visit → Option Subject
  | .enter _ => none
  | .exit subject => some subject

/-- Properly nested pairs of visits, one pair for each of some subjects: what is entered
after a subject and before the next one beside it is left before the subject is. -/
inductive Nested : List Subject → List Visit → Prop where
  | nil : Nested [] []
  | pair {subject : Subject} {inner beside : List Subject} {innerVisits besideVisits : List Visit}
      (inside : Nested inner innerVisits) (after : Nested beside besideVisits) :
      Nested (subject :: inner ++ beside)
        (.enter subject :: innerVisits ++ .exit subject :: besideVisits)

namespace Nested

variable {subjects others : List Subject} {visits otherVisits : List Visit}

/-- Nested pairs beside each other are nested pairs. -/
theorem append (first : Nested subjects visits) (second : Nested others otherVisits) :
    Nested (subjects ++ others) (visits ++ otherVisits) := by
  induction first with
  | nil => exact second
  | pair inside _ _ inductionHypothesis =>
    simpa only [List.append_assoc, List.cons_append] using pair inside inductionHypothesis

/-- Nested pairs enter each of their subjects once, in order. -/
theorem entered (nested : Nested subjects visits) :
    visits.filterMap Visit.entered? = subjects := by
  induction nested with
  | nil => rfl
  | pair _ _ insideEntered afterEntered =>
    simp [List.filterMap_cons, Visit.entered?, insideEntered, afterEntered]

/-- Nested pairs leave each of their subjects once. -/
theorem left (nested : Nested subjects visits) :
    (visits.filterMap Visit.left?).Perm subjects := by
  induction nested with
  | nil => rfl
  | pair _ _ insideLeft afterLeft =>
    simp only [List.filterMap_cons, List.filterMap_append, Visit.left?, List.cons_append]
    exact List.perm_middle.trans ((insideLeft.append afterLeft).cons _)

/-- Nested pairs visit nothing but their subjects. -/
theorem subject_mem (nested : Nested subjects visits) {visit : Visit} (member : visit ∈ visits) :
    visit.subject ∈ subjects := by
  cases visit with
  | enter subject =>
    rw [← nested.entered]
    exact List.mem_filterMap.mpr ⟨_, member, rfl⟩
  | exit subject =>
    rw [← nested.left.mem_iff]
    exact List.mem_filterMap.mpr ⟨_, member, rfl⟩

end Nested

namespace Node

/-- The visits of several subtrees are those of each of them. -/
theorem visitsAll_eq_flatMap (nodes : List Node) : visitsAll nodes = nodes.flatMap visits := by
  induction nodes with
  | nil => simp [visitsAll]
  | cons node rest inductionHypothesis => simp [visitsAll, inductionHypothesis]

/-- A node is entered before and left after the nodes below it are visited. -/
theorem visits_eq (node : Node) :
    node.visits =
      .enter (.inner node) :: node.children.flatMap visits ++ [.exit (.inner node)] := by
  cases node with
  | mk id content children => rw [visits, visitsAll_eq_flatMap]

/-- Subtrees that are nested pairs are so beside each other. -/
theorem nested_flatMap {nodes : List Node}
    (each : ∀ node ∈ nodes, Nested (node.preorder.map .inner) node.visits) :
    Nested ((nodes.flatMap preorder).map .inner) (nodes.flatMap visits) := by
  induction nodes with
  | nil => exact .nil
  | cons node rest inductionHypothesis =>
    rw [List.flatMap_cons, List.flatMap_cons, List.map_append]
    exact (each node (by simp)).append
      (inductionHypothesis fun other member => each other (by simp [member]))

/-- The visits of a subtree are nested pairs, one for each of its nodes. -/
theorem nested_visits (node : Node) : Nested (node.preorder.map .inner) node.visits := by
  induction node using byChildren with
  | step node inductionHypothesis =>
    rw [preorder_eq, visits_eq]
    have nested := @Nested.pair (.inner node) _ _ _ _ (nested_flatMap inductionHypothesis) .nil
    simpa only [List.append_nil, List.map_cons] using nested

end Node

/-- The visits of a program are nested pairs, one for each of its subjects. -/
theorem Program.nested_visits (program : Program) :
    Nested program.subjects program.visits := by
  have below := Node.nested_flatMap fun node (_ : node ∈ program.children) => node.nested_visits
  have nested := @Nested.pair (.root program) _ _ _ _ below .nil
  rw [subjects, visits, nodes_eq_flatMap, Node.visitsAll_eq_flatMap]
  simpa only [List.append_nil] using nested

/-- A walk is the run of the hooks of the visits of its program. It calls all of them,
or those up to and including the first that fails, whose error it returns with the state
which that hook left. Each is the hook for the kind of what is visited. The visits enter and
leave every subject once, properly nested. -/
theorem Listener.walk_follows_visits {State Error : Type} (listener : Listener State Error)
    (program : Program) (start : State) :
    listener.walk program start = listener.run program.visits start ∧
    (listener.recorder.walk program (start, [])).1 = (listener.walk program start).1 ∧
    (listener.recorder.walk program (start, [])).2.1 = (listener.walk program start).2 ∧
    ((∃ final, listener.walk program start = (.ok (), final) ∧
        (listener.calls program start).map Prod.fst = program.visits) ∨
      ∃ before visit after state error final, program.visits = before ++ visit :: after ∧
        listener.run before start = (.ok (), state) ∧
        listener.call visit state = (.error error, final) ∧
        listener.walk program start = (.error error, final) ∧
        (listener.calls program start).map Prod.fst = before ++ [visit]) ∧
    (∀ called ∈ listener.record program start, called.kind = called.visit.kind) ∧
    Nested program.subjects program.visits ∧
    program.visits.filterMap Visit.entered? = program.subjects ∧
    (program.visits.filterMap Visit.left?).Perm program.subjects := by
  have nested := program.nested_visits
  refine ⟨listener.walk_eq_run program start, ?_, ?_, ?_, ?_, nested, nested.entered, nested.left⟩
  · rw [listener.walk_eq_run, listener.recorder.walk_eq_run, listener.run_recorder]
  · rw [listener.walk_eq_run, listener.recorder.walk_eq_run, listener.run_recorder]
  · rw [listener.walk_eq_run, listener.calls_eq_trace]
    exact listener.run_cases program.visits start
  · intro called member
    rw [listener.record_eq_trace] at member
    obtain ⟨visited, -, rfl⟩ := List.mem_map.mp member
    rfl

end Treescribe
