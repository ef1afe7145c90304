import Mathlib.Data.List.Forall2

/-!
# Outcomes

What can be said of a computation that fails at its first failing step, without
looking into the steps: the value of a list of steps is the list of their values,
and its error is the first of their errors.
-/

namespace Treescribe

/-- The error of a computation that failed. -/
def failure? {ε α : Type} : Except ε α → Option ε
  | .ok _ => none
  | .error error => some error

/-- A computation fails with an error exactly when that is its failure. -/
theorem failure?_eq_some_iff {ε α : Type} {outcome : Except ε α} {error : ε} :
    failure? outcome = some error ↔ outcome = .error error := by
  cases outcome <;> simp [failure?]

/-- A computation has a value exactly when it has no failure. -/
theorem failure?_eq_none_iff {ε α : Type} {outcome : Except ε α} :
    failure? outcome = none ↔ ∃ value, outcome = .ok value := by
  cases outcome <;> simp [failure?]

/-- Computations without a value to return are the same if they fail alike. -/
theorem eq_of_failure?_eq {ε : Type} {first second : Except ε Unit}
    (same : failure? first = failure? second) : first = second := by
  cases first <;> cases second <;> simp_all [failure?]

/-- Of two steps the second one can only fail if the first one does not. -/
theorem failure?_bind {ε α β : Type} (first : Except ε α) (second : α → Except ε β) :
    failure? (first >>= second) =
      match first with
      | .ok value => failure? (second value)
      | .error error => some error := by
  cases first <;> rfl

/-- A step followed by a pure one fails like the step alone. -/
theorem failure?_bind_pure {ε α β : Type} (step : Except ε α) (finish : α → β) :
    failure? (step >>= fun value => pure (finish value)) = failure? step := by
  cases step <;> rfl

/-- Two steps have a value exactly when the first has one and the second, which
depends on it, has one, too. -/
theorem bind_eq_ok_iff {ε α β : Type} {first : Except ε α} {second : α → Except ε β} {result : β} :
    (first >>= second) = .ok result ↔ ∃ value, first = .ok value ∧ second value = .ok result := by
  cases first <;> simp [bind, Except.bind]

/-- Two steps fail where the first fails, or where it does not and the second does. -/
theorem bind_eq_error_iff {ε α β : Type} {first : Except ε α} {second : α → Except ε β}
    {error : ε} :
    (first >>= second) = .error error ↔
      first = .error error ∨ ∃ value, first = .ok value ∧ second value = .error error := by
  cases first <;> simp [bind, Except.bind]

/-- The steps of a list succeed together exactly when each one does. -/
theorem mapM_eq_ok_iff {ε α β : Type} {step : α → Except ε β} {inputs : List α}
    {values : List β} :
    inputs.mapM step = .ok values ↔
      List.Forall₂ (fun input value => step input = .ok value) inputs values := by
  induction inputs generalizing values with
  | nil =>
    rw [List.mapM_nil, List.forall₂_nil_left_iff]
    constructor
    · intro same
      exact (Except.ok.inj same).symm
    · rintro rfl
      rfl
  | cons input rest inductionHypothesis =>
    rw [List.mapM_cons, List.forall₂_cons_left_iff, bind_eq_ok_iff]
    constructor
    · rintro ⟨value, first, others⟩
      obtain ⟨restValues, second, joined⟩ := bind_eq_ok_iff.mp others
      exact ⟨value, restValues, first, inductionHypothesis.mp second,
        (Except.ok.inj joined).symm⟩
    · rintro ⟨value, restValues, first, second, rfl⟩
      exact ⟨value, first, bind_eq_ok_iff.mpr ⟨restValues, inductionHypothesis.mpr second, rfl⟩⟩

/-- The steps of a list fail with the error of the first one that fails. -/
theorem failure?_mapM {ε α β : Type} (step : α → Except ε β) (inputs : List α) :
    failure? (inputs.mapM step) = inputs.findSome? fun input => failure? (step input) := by
  induction inputs with
  | nil => rfl
  | cons input rest inductionHypothesis =>
    rw [List.mapM_cons, failure?_bind, List.findSome?_cons]
    cases step input with
    | error error => rfl
    | ok value => exact (failure?_bind_pure _ _).trans inductionHypothesis

/-- Searches that agree on the inputs of a list have the same first result. -/
theorem findSome?_congr {α β : Type} {first second : α → Option β} {inputs : List α}
    (same : ∀ input ∈ inputs, first input = second input) :
    inputs.findSome? first = inputs.findSome? second := by
  induction inputs with
  | nil => rfl
  | cons input rest inductionHypothesis =>
    rw [List.findSome?_cons, List.findSome?_cons, same input (by simp),
      inductionHypothesis fun other member => same other (by simp [member])]

/-- The first result of a search through lists of lists is that of the first list which
has one. -/
theorem findSome?_flatMap {α β γ : Type} (list : α → List β) (search : β → Option γ)
    (inputs : List α) :
    (inputs.flatMap list).findSome? search =
      inputs.findSome? fun input => (list input).findSome? search := by
  induction inputs with
  | nil => rfl
  | cons input rest inductionHypothesis =>
    rw [List.flatMap_cons, List.findSome?_append, List.findSome?_cons, inductionHypothesis]
    cases (list input).findSome? search <;> rfl

/-- The first result of a search through what another search finds is the first that both
find together. -/
theorem findSome?_filterMap {α β γ : Type} (find : α → Option β) (search : β → Option γ)
    (inputs : List α) :
    (inputs.filterMap find).findSome? search =
      inputs.findSome? fun input => (find input).bind search := by
  rw [← List.head?_filterMap, List.filterMap_filterMap, List.head?_filterMap]

/-- Steps that agree on the inputs of a list agree on the list. -/
theorem mapM_congr {ε α β : Type} {first second : α → Except ε β} {inputs : List α}
    (same : ∀ input ∈ inputs, first input = second input) :
    inputs.mapM first = inputs.mapM second := by
  induction inputs with
  | nil => rfl
  | cons input rest inductionHypothesis =>
    rw [List.mapM_cons, List.mapM_cons, same input (by simp),
      inductionHypothesis fun other member => same other (by simp [member])]

/-- Every output of related lists belongs to an input. -/
theorem exists_of_forall₂ {α β : Type} {related : α → β → Prop} {inputs : List α}
    {outputs : List β} (pairs : List.Forall₂ related inputs outputs) {output : β}
    (member : output ∈ outputs) : ∃ input ∈ inputs, related input output := by
  induction pairs with
  | nil => cases member
  | @cons input first inputs outputs pair _ inductionHypothesis =>
    rcases List.mem_cons.mp member with rfl | member
    · exact ⟨input, by simp, pair⟩
    · obtain ⟨other, otherMem, otherPair⟩ := inductionHypothesis member
      exact ⟨other, by simp [otherMem], otherPair⟩

/-- An output in a place of related lists belongs to the input in that place. -/
theorem getElem?_of_forall₂ {α β : Type} {related : α → β → Prop} {inputs : List α}
    {outputs : List β} (pairs : List.Forall₂ related inputs outputs) {place : Nat} {output : β}
    (found : outputs[place]? = some output) :
    ∃ input, inputs[place]? = some input ∧ related input output := by
  induction pairs generalizing place with
  | nil => cases found
  | @cons input first _ _ pair _ inductionHypothesis =>
    cases place with
    | zero =>
      cases found
      exact ⟨input, rfl, pair⟩
    | succ place => exact inductionHypothesis found

/-- Related lists look alike where related members do. -/
theorem map_eq_of_forall₂ {α β γ : Type} {inputs : List α} {outputs : List β}
    {first : α → γ} {second : β → γ}
    (pairs : List.Forall₂ (fun input output => second output = first input) inputs outputs) :
    outputs.map second = inputs.map first := by
  rw [← List.forall₂_eq_eq_eq, List.forall₂_map_left_iff, List.forall₂_map_right_iff]
  exact List.Forall₂.flip pairs

end Treescribe
