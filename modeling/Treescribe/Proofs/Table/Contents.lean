import Treescribe.Proofs.Outcome
import Treescribe.Tree.Table

/-!
# Contents of rows

Which rows have a content. A kind says which fields its rows cannot do without, in
the order in which they are asked for. A row below the root has a content exactly
when it is of a kind other than the program's and has all fields of that kind;
otherwise its report names the first thing that is wrong with it.
-/

namespace Treescribe

namespace Kind

/-- The fields that a row of a kind cannot do without, in the order in which they
are asked for. -/
def required : Kind → List Field
  | .package | .importPath | .normalClass | .normalFunction | .overrideFunction
  | .assignment | .callFunction => [.ids]
  | .functionSetter | .overrideFunctionSetter => [.type, .ids]
  | .ifBranch | .elseIfBranch => [.text]
  | .classAccess => [.segments]
  | .program | .importBlock | .privateBlock | .publicBlock | .staticBlock | .print
  | .returnStatement | .elseBranch => []

/-- A name is read as the kind that is spelled so, and as no other. -/
theorem ofSpelling?_eq_some_iff {name : String} {kind : Kind} :
    ofSpelling? name = some kind ↔ name = kind.spelling := by
  constructor
  · intro found
    have spelled := List.find?_some found
    exact (beq_iff_eq.mp spelled).symm
  · rintro rfl
    cases kind <;> rfl

/-- A name is not read exactly when no kind is spelled so. -/
theorem ofSpelling?_eq_none_iff {name : String} :
    ofSpelling? name = none ↔ ∀ kind : Kind, name ≠ kind.spelling := by
  constructor
  · intro unread kind spelled
    rw [ofSpelling?_eq_some_iff.mpr spelled] at unread
    cases unread
  · intro unknown
    cases read : ofSpelling? name with
    | none => rfl
    | some kind => exact absurd (ofSpelling?_eq_some_iff.mp read) (unknown kind)

/-- No two kinds are spelled alike. -/
theorem spelling_injective {first second : Kind} (same : first.spelling = second.spelling) :
    first = second := by
  have read : ofSpelling? first.spelling = some second := ofSpelling?_eq_some_iff.mpr same
  rw [ofSpelling?_eq_some_iff.mpr rfl] at read
  exact Option.some.inj read

end Kind

namespace Row

/-- Whether a row has a field. An empty list is no field. -/
def Has (row : Row) : Field → Prop
  | .ids => row.names ≠ []
  | .type => row.type ≠ none
  | .text => row.text ≠ none
  | .segments => row.segments ≠ []

instance (row : Row) : DecidablePred row.Has
  | .ids => inferInstanceAs (Decidable (row.names ≠ []))
  | .type => inferInstanceAs (Decidable (row.type ≠ none))
  | .text => inferInstanceAs (Decidable (row.text ≠ none))
  | .segments => inferInstanceAs (Decidable (row.segments ≠ []))

/-- A row that can stand below the root: its kind is known, it is not another
program, and it has all fields of its kind. -/
def Complete (row : Row) : Prop :=
  ∃ kind : Kind, row.kind = kind.spelling ∧ kind ≠ .program ∧
    ∀ field ∈ kind.required, row.Has field

/-- What is wrong with a row that stands below the root. Of several missing fields
the one that is asked for first counts. -/
inductive Defect (row : Row) : TableError → Prop where
  | unknownKind (unknown : ∀ kind : Kind, row.kind ≠ kind.spelling) :
      Defect row (.unknownKind row.id row.kind)
  | misplacedProgram (named : row.kind = Kind.program.spelling) :
      Defect row (.misplacedProgram row.id)
  | missingField {kind : Kind} {field : Field} {asked unasked : List Field}
      (named : row.kind = kind.spelling) (inner : kind ≠ .program)
      (required : kind.required = asked ++ field :: unasked)
      (present : ∀ earlier ∈ asked, row.Has earlier) (absent : ¬ row.Has field) :
      Defect row (.missingField row.id kind field)

/-- The report that a row lacks a field, unless it has it. -/
def lack? (row : Row) (kind : Kind) (field : Field) : Option TableError :=
  if row.Has field then none else some (row.missing kind field)

/-- Names are asked for as a whole. -/
theorem failure?_path (row : Row) (kind : Kind) :
    failure? (row.path kind) = row.lack? kind .ids := by
  unfold path lack?
  cases names : row.names <;> simp [Has, names, failure?]

/-- A first name is there exactly when there are names. -/
theorem failure?_name (row : Row) (kind : Kind) :
    failure? (row.name kind) = row.lack? kind .ids := by
  unfold name lack?
  cases names : row.names <;> simp [Has, names, failure?]

/-- The text of a branch is asked for. -/
theorem failure?_condition (row : Row) (kind : Kind) :
    failure? (row.condition kind) = row.lack? kind .text := by
  unfold condition lack?
  cases text : row.text <;> simp [Has, text, failure?]

/-- A function needs its name. -/
theorem failure?_function (row : Row) (kind : Kind) (isOverride : Bool) :
    failure? (row.function kind isOverride) = row.lack? kind .ids := by
  rw [← failure?_name]
  exact failure?_bind_pure _ _

/-- A function with a return type needs the type before its name. -/
theorem failure?_setter (row : Row) (kind : Kind) (isOverride : Bool) :
    failure? (row.setter kind isOverride) = (row.lack? kind .type).or (row.lack? kind .ids) := by
  unfold setter
  cases type : row.type with
  | none => simp [lack?, Has, type, failure?]
  | some type' =>
    simp only [lack?, Has, type, ne_eq, reduceCtorEq, not_false_eq_true, if_true,
      Option.none_or]
    exact (failure?_bind_pure _ _).trans (failure?_name row kind)

/-- A row of a kind below the root fails for the first field that it lacks. -/
theorem failure?_contentOf (row : Row) {kind : Kind} (inner : kind ≠ .program) :
    failure? (row.contentOf kind) = kind.required.findSome? (row.lack? kind) := by
  cases kind with
  | program => exact absurd rfl inner
  | importBlock | privateBlock | publicBlock | staticBlock | print | returnStatement
  | elseBranch => rfl
  | package | importPath =>
    simp only [contentOf, failure?_bind_pure, failure?_path, Kind.required,
      List.findSome?_singleton]
  | normalClass | assignment | callFunction =>
    simp only [contentOf, failure?_bind_pure, failure?_name, Kind.required,
      List.findSome?_singleton]
  | normalFunction | overrideFunction =>
    simp only [contentOf, failure?_function, Kind.required, List.findSome?_singleton]
  | functionSetter | overrideFunctionSetter =>
    simp only [contentOf, failure?_setter, Kind.required, List.findSome?_cons,
      List.findSome?_nil]
    cases row.lack? _ .type <;> cases row.lack? _ .ids <;> rfl
  | ifBranch | elseIfBranch =>
    simp only [contentOf, failure?_bind_pure, failure?_condition, Kind.required,
      List.findSome?_singleton]
  | classAccess =>
    simp only [contentOf, Kind.required, List.findSome?_singleton]
    unfold lack?
    cases segments : row.segments <;> simp [Has, segments, failure?, pure, Except.pure]

/-- The report of a row is the first thing that is wrong with it. -/
theorem content_eq_error_iff {row : Row} {error : TableError} :
    row.content = .error error ↔ row.Defect error := by
  constructor
  · intro failed
    unfold content at failed
    cases read : Kind.ofSpelling? row.kind with
    | none =>
      rw [read] at failed
      cases failed
      exact .unknownKind (Kind.ofSpelling?_eq_none_iff.mp read)
    | some kind =>
      rw [read] at failed
      have named := Kind.ofSpelling?_eq_some_iff.mp read
      by_cases inner : kind = .program
      · subst inner
        cases failed
        exact .misplacedProgram named
      · have lacking := failure?_contentOf row inner
        rw [failure?_eq_some_iff.mpr failed] at lacking
        obtain ⟨asked, field, unasked, required, lack, present⟩ :=
          List.findSome?_eq_some_iff.mp lacking.symm
        by_cases has : row.Has field
        · simp [lack?, has] at lack
        · simp only [lack?, has, if_false, Option.some.injEq] at lack
          subst lack
          refine .missingField named inner required ?_ has
          intro earlier member
          by_contra lacks
          simpa [lack?, lacks] using present earlier member
  · intro defect
    unfold content
    cases defect with
    | unknownKind unknown => rw [Kind.ofSpelling?_eq_none_iff.mpr unknown]
    | misplacedProgram named =>
      rw [Kind.ofSpelling?_eq_some_iff.mpr named]
      rfl
    | @missingField kind field asked unasked named inner required present absent =>
      rw [Kind.ofSpelling?_eq_some_iff.mpr named]
      apply failure?_eq_some_iff.mp
      rw [failure?_contentOf row inner]
      refine List.findSome?_eq_some_iff.mpr ⟨asked, field, unasked, required, ?_, ?_⟩
      · simp [lack?, absent, missing]
      · intro earlier member
        simp [lack?, present earlier member]

/-- A row has a content exactly when it is complete. -/
theorem content_eq_ok_iff {row : Row} :
    (∃ content, row.content = .ok content) ↔ row.Complete := by
  rw [← failure?_eq_none_iff]
  unfold content Complete
  cases read : Kind.ofSpelling? row.kind with
  | none =>
    have unknown := Kind.ofSpelling?_eq_none_iff.mp read
    simp only [failure?, reduceCtorEq, false_iff]
    rintro ⟨kind, named, _⟩
    exact unknown kind named
  | some kind =>
    have named := Kind.ofSpelling?_eq_some_iff.mp read
    constructor
    · intro succeeded
      have inner : kind ≠ .program := by
        rintro rfl
        cases succeeded
      rw [failure?_contentOf row inner, List.findSome?_eq_none_iff] at succeeded
      refine ⟨kind, named, inner, fun field member => ?_⟩
      by_contra lacks
      simpa [lack?, lacks] using succeeded field member
    · rintro ⟨other, spelled, inner, present⟩
      have same : other = kind := Kind.spelling_injective (spelled.symm.trans named)
      subst same
      rw [failure?_contentOf row inner, List.findSome?_eq_none_iff]
      intro field member
      simp [lack?, present field member]

end Row

end Treescribe
