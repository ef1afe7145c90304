import Treescribe.Proofs.Walk.Places

/-!
# Visits that match

A transcription sees little of a visit: whether it enters or leaves, the content there and, of
an assignment or a return, whether a chain among the children ends its line. Visits that agree
in all of this match; those that may differ in the last are akin. Two programs that are the
same up to a place have visits before it that are akin, and that match if the nodes above leave
the same lines open.
-/

namespace Treescribe

/-- Whether a node leaves its line open when it is entered, for a chain among its children. -/
def Node.opensLine (node : Node) : Bool :=
  match node.content with
  | .assignment _ | .returnStatement _ => node.hasChain
  | _ => false

namespace Visit

/-- Whether a visit leaves its line open. -/
def opensLine : Visit → Bool
  | .enter (.inner node) => node.opensLine
  | _ => false

/-- Both visits enter or both leave, programs or nodes with the same content. -/
inductive Akin : Visit → Visit → Prop where
  | enterRoot (program other : Program) : Akin (.enter (.root program)) (.enter (.root other))
  | enter {node other : Node} (content : node.content = other.content) :
      Akin (.enter (.inner node)) (.enter (.inner other))
  | exitRoot (program other : Program) : Akin (.exit (.root program)) (.exit (.root other))
  | exit {node other : Node} (content : node.content = other.content) :
      Akin (.exit (.inner node)) (.exit (.inner other))

/-- Visits in which a session sees no difference. -/
def Matching (visit other : Visit) : Prop :=
  Akin visit other ∧ visit.opensLine = other.opensLine

/-- Visits that are akin, and that match on a condition. -/
def MatchingIf (condition : Prop) (visit other : Visit) : Prop :=
  Akin visit other ∧ (condition → visit.opensLine = other.opensLine)

/-- A visit is akin to itself. -/
theorem Akin.refl (visit : Visit) : Akin visit visit := by
  rcases visit with ⟨program | node⟩ | ⟨program | node⟩
  · exact .enterRoot program program
  · exact .enter rfl
  · exact .exitRoot program program
  · exact .exit rfl

/-- Visits match themselves. -/
theorem matching_self (visits : List Visit) : List.Forall₂ Matching visits visits :=
  List.forall₂_same.mpr fun visit _ => ⟨Akin.refl visit, rfl⟩

/-- Visits match themselves on any condition. -/
theorem matchingIf_self (condition : Prop) (visits : List Visit) :
    List.Forall₂ (MatchingIf condition) visits visits :=
  List.forall₂_same.mpr fun visit _ => ⟨Akin.refl visit, fun _ => rfl⟩

end Visit

/-- Whether the nodes of some levels leave their lines open. -/
def Level.opensLines : List Level → Node → List Bool
  | [], _ => []
  | level :: inner, node => (level.around (fill inner node)).opensLine :: opensLines inner node

namespace Place

/-- Whether the nodes above a place leave their lines open, the outermost one first. -/
def opensLines (place : Place) (node : Node) : List Bool :=
  Level.opensLines place.levels node

/-- Places in two programs that are the same up to there: the nodes above have the same
content and the same children before the place, whatever stands behind it. -/
structure SameBefore (place other : Place) : Prop where
  before : place.before = other.before
  levels : List.Forall₂ (fun level another =>
    level.content = another.content ∧ level.before = another.before) place.levels other.levels

end Place

namespace Level

/-- The visits below levels that are the same up to a node are akin, and match where the same
lines are open. -/
theorem matchingIf_visitsBefore {levels others : List Level}
    (same : List.Forall₂ (fun level another =>
      level.content = another.content ∧ level.before = another.before) levels others)
    (node changed : Node) :
    List.Forall₂ (Visit.MatchingIf (opensLines levels node = opensLines others changed))
      (visitsBefore levels node) (visitsBefore others changed) := by
  induction same with
  | nil => exact .nil
  | cons first rest inductionHypothesis =>
    obtain ⟨content, before⟩ := first
    rw [visitsBefore, visitsBefore, opensLines, opensLines, ← before]
    refine .cons ⟨.enter content, fun lines => (List.cons.inj lines).1⟩ (List.rel_append ?_ ?_)
    · exact Visit.matchingIf_self _ _
    · exact inductionHypothesis.imp fun visit another related =>
        ⟨related.1, fun lines => related.2 (List.cons.inj lines).2⟩

/-- The visits below levels behind a node match whatever the node is. -/
theorem matching_visitsBehind (levels : List Level) (node other : Node) :
    List.Forall₂ Visit.Matching (visitsBehind levels node) (visitsBehind levels other) := by
  induction levels with
  | nil => exact .nil
  | cons level inner inductionHypothesis =>
    rw [visitsBehind, visitsBehind]
    refine List.rel_append inductionHypothesis (List.rel_append ?_ ?_)
    · exact Visit.matching_self _
    · exact .cons ⟨.exit rfl, rfl⟩ .nil

/-- The kind of a subtree is that of its outermost level. -/
theorem kind_fill (levels : List Level) {node other : Node} (kind : node.kind = other.kind) :
    (fill levels node).kind = (fill levels other).kind := by
  cases levels with
  | nil => exact kind
  | cons level inner => rfl

/-- Which lines are open above a node depends on nothing but its kind. -/
theorem opensLines_of_kind (levels : List Level) {node other : Node}
    (kind : node.kind = other.kind) : opensLines levels node = opensLines levels other := by
  induction levels with
  | nil => rfl
  | cons level inner inductionHypothesis =>
    have hasChain : (level.around (fill inner node)).hasChain =
        (level.around (fill inner other)).hasChain := by
      simp only [around, Node.hasChain, List.any_append, List.any_cons, kind_fill inner kind]
    rw [opensLines, opensLines, inductionHypothesis, Node.opensLine, Node.opensLine, hasChain]
    rfl

end Level

namespace Place

/-- The visits before places that are the same up to there are akin, and match where the same
lines are open. -/
theorem SameBefore.visits {place other : Place} (same : place.SameBefore other)
    (node changed : Node) :
    List.Forall₂ (Visit.MatchingIf (place.opensLines node = other.opensLines changed))
      (place.visitsBefore node) (other.visitsBefore changed) := by
  rw [visitsBefore, visitsBefore, ← same.before]
  refine .cons ⟨.enterRoot _ _, fun _ => rfl⟩ (List.rel_append ?_ ?_)
  · exact Visit.matchingIf_self _ _
  · exact Level.matchingIf_visitsBefore same.levels node changed

/-- The visits before places that are the same up to there are akin. -/
theorem SameBefore.akin {place other : Place} (same : place.SameBefore other)
    (node changed : Node) :
    List.Forall₂ Visit.Akin (place.visitsBefore node) (other.visitsBefore changed) :=
  (same.visits node changed).imp fun _ _ related => related.1

/-- The visits before places that are the same up to there match where the same lines are
open. -/
theorem SameBefore.matching {place other : Place} (same : place.SameBefore other)
    {node changed : Node} (lines : place.opensLines node = other.opensLines changed) :
    List.Forall₂ Visit.Matching (place.visitsBefore node) (other.visitsBefore changed) :=
  (same.visits node changed).imp fun _ _ related => ⟨related.1, related.2 lines⟩

/-- A place is the same as itself up to there. -/
theorem SameBefore.refl (place : Place) : place.SameBefore place :=
  ⟨rfl, List.forall₂_same.mpr fun _ _ => ⟨rfl, rfl⟩⟩

/-- The visits behind a node match whatever the node is. -/
theorem matching_visitsBehind (place : Place) (node other : Node) :
    List.Forall₂ Visit.Matching (place.visitsBehind node) (place.visitsBehind other) := by
  rw [visitsBehind, visitsBehind]
  refine List.rel_append (Level.matching_visitsBehind place.levels node other)
    (List.rel_append ?_ ?_)
  · exact Visit.matching_self _
  · exact .cons ⟨.exitRoot _ _, rfl⟩ .nil

end Place

end Treescribe
