import Mathlib.Data.List.Induction
import Treescribe.Proofs.Walk.Ancestors

/-!
# What was visited before

Equal nodes may stand in several places of a tree, so what happened at a node is told by the
visit that entered it: an `Occurrence` is a node with the number of that visit. The
`History` of a walk holds the visits so far, each with the occurrences around it. An
invariant that speaks of the history, too, need only be kept by the single hooks;
`Historical.calls` has it at every hook that a walk calls.
-/

namespace Treescribe

/-- A node that was entered, with the number of the visit that entered it. -/
structure Occurrence where
  number : Nat
  node : Node

/-- A visit, with what was entered and not left before it, the nearest one first. -/
structure PastVisit where
  around : List Occurrence
  visit : Visit

/-- The visits so far, and what is entered and not left behind them, the nearest one first. -/
structure History where
  past : List PastVisit := []
  around : List Occurrence := []

namespace History

/-- The history behind one more visit. -/
def after (history : History) (visit : Visit) : History where
  past := history.past ++ [⟨history.around, visit⟩]
  around :=
    match visit with
    | .enter (.inner node) => ⟨history.past.length, node⟩ :: history.around
    | .exit (.inner _) => history.around.tail
    | _ => history.around

/-- The history behind some visits. -/
def ofVisits (visits : List Visit) : History :=
  visits.foldl after {}

/-- The history behind visits goes on with the next. -/
theorem ofVisits_concat (visits : List Visit) (visit : Visit) :
    ofVisits (visits ++ [visit]) = (ofVisits visits).after visit := by
  simp [ofVisits]

/-- The history behind visits holds as many. -/
theorem length_past_ofVisits (visits : List Visit) :
    (ofVisits visits).past.length = visits.length := by
  induction visits using List.reverseRecOn with
  | nil => rfl
  | append_singleton visits visit inductionHypothesis =>
    rw [ofVisits_concat, List.length_append, ← inductionHypothesis]
    exact List.length_append

/-- What is around was entered by the visit of its number. -/
theorem entered_of_mem_around {visits : List Visit} {occurrence : Occurrence}
    (member : occurrence ∈ (ofVisits visits).around) :
    visits[occurrence.number]? = some (.enter (.inner occurrence.node)) := by
  induction visits using List.reverseRecOn with
  | nil => cases member
  | append_singleton visits visit inductionHypothesis =>
    have before : occurrence ∈ (ofVisits visits).around →
        (visits ++ [visit])[occurrence.number]? = some (.enter (.inner occurrence.node)) := by
      intro earlier
      have found := inductionHypothesis earlier
      rwa [List.getElem?_append_left (List.getElem?_eq_some_iff.mp found).1]
    rw [ofVisits_concat] at member
    rcases visit with ⟨program | node⟩ | ⟨program | node⟩
    · exact before member
    · rcases List.mem_cons.mp member with rfl | earlier
      · rw [length_past_ofVisits, List.getElem?_concat_length]
      · exact before earlier
    · exact before member
    · exact before (List.mem_of_mem_tail member)

/-- What is around was entered by visits of different numbers, the nearest one by the latest,
and all of them are past. -/
structure Orderly (history : History) : Prop where
  descending : history.around.Pairwise fun inner outer => outer.number < inner.number
  entered : ∀ occurrence ∈ history.around, occurrence.number < history.past.length
  earlier : ∀ past ∈ history.past, ∀ occurrence ∈ past.around,
    occurrence.number < history.past.length

/-- A history stays orderly. -/
theorem Orderly.after {history : History} (orderly : history.Orderly) (visit : Visit) :
    (history.after visit).Orderly := by
  have longer : (history.after visit).past.length = history.past.length + 1 := by
    simp [History.after]
  have before : ∀ occurrence ∈ history.around,
      occurrence.number < (history.after visit).past.length := by
    intro occurrence member
    have entered := orderly.entered occurrence member
    omega
  have earlier : ∀ past ∈ (history.after visit).past, ∀ occurrence ∈ past.around,
      occurrence.number < (history.after visit).past.length := by
    intro past member occurrence around
    rcases List.mem_append.mp member with member | member
    · have entered := orderly.earlier past member occurrence around
      omega
    · cases List.mem_singleton.mp member
      exact before occurrence around
  rcases visit with ⟨program | node⟩ | ⟨program | node⟩
  · exact ⟨orderly.descending, before, earlier⟩
  · refine ⟨.cons orderly.entered orderly.descending, ?_, earlier⟩
    intro occurrence member
    rcases List.mem_cons.mp member with rfl | member
    · exact Nat.lt_of_lt_of_eq (Nat.lt_succ_self _) longer.symm
    · exact before occurrence member
  · exact ⟨orderly.descending, before, earlier⟩
  · exact ⟨orderly.descending.tail, fun occurrence member =>
      before occurrence (List.mem_of_mem_tail member), earlier⟩

end History

/-- The history of the walk through a program before the visit of a number. -/
def Program.history (program : Program) (number : Nat) : History :=
  History.ofVisits (program.visits.take number)

/-- What is around in the walk through a program was entered by the visit of its number. -/
theorem Program.entered_of_mem_history {program : Program} {number : Nat} {occurrence : Occurrence}
    (member : occurrence ∈ (program.history number).around) :
    program.visits[occurrence.number]? = some (.enter (.inner occurrence.node)) := by
  have entered := History.entered_of_mem_around member
  rw [List.getElem?_take] at entered
  split at entered
  · exact entered
  · cases entered

namespace Listener

variable {State Error : Type} (listener : Listener State Error)

/-- The visits whose hooks are called are the first ones. -/
theorem map_trace_isPrefix (visits : List Visit) (start : State) :
    (listener.trace visits start).map Prod.fst <+: visits := by
  rcases listener.run_cases visits start with ⟨_, -, called⟩ |
    ⟨before, visit, after, _, _, _, place, -, -, -, called⟩
  · exact ⟨[], by rw [List.append_nil, called]⟩
  · rw [called, place]
    exact ⟨after, by simp⟩

/-- What is recorded when a hook is called are the calls before. -/
theorem getElem?_trace_recorder (visits : List Visit) (state : State)
    (record : List (HookCall State)) (number : Nat) :
    (listener.recorder.trace visits (state, record))[number]? =
      (listener.trace visits state)[number]?.map fun called =>
        (called.1, called.2, record ++ ((listener.trace visits state).take number).map .own) := by
  induction visits generalizing state record number with
  | nil => simp [trace]
  | cons visit rest inductionHypothesis =>
    rw [trace, trace, call_recorder]
    cases number with
    | zero => simp
    | succ number =>
      rcases answer : listener.call visit state with ⟨_ | ⟨⟩, next⟩
      · simp
      · simp [inductionHypothesis]

end Listener

/-- An invariant that follows the tree and speaks of the history. Each hook that succeeds
keeps it, with its own visit behind the history. -/
structure Historical {State Error : Type} (listener : Listener State Error)
    (invariant : List Node → History → State → Prop) : Prop where
  enterRoot {program : Program} {history : History} {state next : State}
    (before : invariant [] history state)
    (entered : listener.call (.enter (.root program)) state = (.ok (), next)) :
    invariant [] (history.after (.enter (.root program))) next
  enter {above : List Node} {node : Node} {history : History} {state next : State}
    (before : invariant above history state)
    (entered : listener.call (.enter (.inner node)) state = (.ok (), next)) :
    invariant (node :: above) (history.after (.enter (.inner node))) next
  exit {above : List Node} {node : Node} {history : History} {state next : State}
    (before : invariant (node :: above) history state)
    (left : listener.call (.exit (.inner node)) state = (.ok (), next)) :
    invariant above (history.after (.exit (.inner node))) next

namespace Historical

variable {State Error : Type} {listener : Listener State Error}
  {invariant : List Node → History → State → Prop}

/-- A call that is recorded succeeds as it does, and goes on with the history. -/
theorem recorded {visit : Visit} {state : State} {record : List (HookCall State)}
    {next : State × List (HookCall State)}
    (called : listener.recorder.call visit (state, record) = (.ok (), next)) :
    listener.call visit state = (.ok (), next.1) ∧
      History.ofVisits (next.2.map HookCall.visit) =
        (History.ofVisits (record.map HookCall.visit)).after visit := by
  rw [Listener.call_recorder] at called
  obtain ⟨succeeded, rfl⟩ := Prod.mk.inj called
  refine ⟨Prod.ext succeeded rfl, ?_⟩
  rw [List.map_append]
  exact History.ofVisits_concat _ visit

/-- A historical invariant is a lexical one of what a listener records. -/
theorem lexical (historical : Historical listener invariant) :
    Lexical listener.recorder fun around recording =>
      invariant around (History.ofVisits (recording.2.map HookCall.visit)) recording.1 where
  enterRoot before entered := by
    obtain ⟨called, goesOn⟩ := recorded entered
    rw [goesOn]
    exact historical.enterRoot before called
  enter before entered := by
    obtain ⟨called, goesOn⟩ := recorded entered
    rw [goesOn]
    exact historical.enter before called
  exit before left := by
    obtain ⟨called, goesOn⟩ := recorded left
    rw [goesOn]
    exact historical.exit before called

/-- A historical invariant that holds before a walk holds at every hook which the walk calls,
for the nodes around the place of the call and the history before it. -/
theorem calls (historical : Historical listener invariant) (program : Program) {start : State}
    (before : invariant [] {} start) {number : Nat} {visit : Visit} {state : State}
    (called : (listener.calls program start)[number]? = some (visit, state)) :
    ∃ placed, program.placedVisits[number]? = some placed ∧ placed.visit = visit ∧
      invariant placed.around (program.history number) state := by
  have followed : List.Forall₂ _ _ (listener.recorder.calls program (start, [])) :=
    historical.lexical.calls program before
  rw [Listener.calls_eq_trace] at called
  have recorded : (listener.recorder.calls program (start, []))[number]? =
      some (visit, state, ((listener.trace program.visits start).take number).map .own) := by
    rw [Listener.calls_eq_trace, Listener.getElem?_trace_recorder, called]
    rfl
  obtain ⟨placed, place, visited, holds⟩ := getElem?_of_forall₂ followed recorded
  obtain ⟨within, -⟩ := List.getElem?_eq_some_iff.mp called
  have past : (((listener.trace program.visits start).take number).map .own).map HookCall.visit =
      program.visits.take number := by
    obtain ⟨others, whole⟩ := listener.map_trace_isPrefix program.visits start
    calc (((listener.trace program.visits start).take number).map .own).map HookCall.visit
        = ((listener.trace program.visits start).take number).map Prod.fst := List.map_map
      _ = ((listener.trace program.visits start).map Prod.fst).take number := List.map_take
      _ = ((listener.trace program.visits start).map Prod.fst ++ others).take number :=
        (List.take_append_of_le_length (by simpa using Nat.le_of_lt within)).symm
      _ = program.visits.take number := congrArg _ whole
  rw [List.getElem?_take] at place
  refine ⟨placed, ?_, visited, ?_⟩
  · split at place
    · exact place
    · cases place
  · rw [Program.history, ← past]
    exact holds

end Historical

end Treescribe
