import Treescribe.Json.Parser
import Treescribe.Proofs.Json.Lexing

/-!
# Reading values back

A value is read back from each of its texts, whatever containers are open around it: its
tokens take the parser from the place where a value is missing to the place behind it.
-/

namespace Treescribe

namespace Json

namespace ParserState

/-- The state behind tokens. -/
abbrev after? (state : ParserState) (tokens : List Token) : Option ParserState :=
  tokens.foldlM step? state

/-- Tokens read as a value, whatever is open around it and whatever follows. -/
def Reads (tokens : List Token) (json : Json) : Prop :=
  ∀ outer rest, after? (.needsValue outer) (tokens ++ rest) = after? (place json outer) rest

/-- The first item of an array is read as any other value: no value starts with the end
of an array. -/
theorem after?_arrayStart (json : Json) (outer : List Frame) (rest : List Token) :
    after? (.arrayStart outer) (json.tokens ++ rest) =
      after? (.needsValue (.item [] :: outer)) (json.tokens ++ rest) := by
  cases json <;> rfl

/-- Behind an item, the items that follow are read up to the end of the array. -/
theorem after?_arrayNext {items : List Json} (each : ∀ item ∈ items, Reads item.tokens item)
    (held : List Json) (outer : List Frame) (rest : List Token) :
    after? (.arrayNext held outer)
        ((items.map tokens).flatMap (.comma :: ·) ++ .closeArray :: rest) =
      after? (place (.array (held.reverse ++ items)) outer) rest := by
  induction items generalizing held with
  | nil =>
    rw [List.append_nil]
    rfl
  | cons item items inductionHypothesis =>
    obtain ⟨here, later⟩ := List.forall_mem_cons.mp each
    rw [List.map_cons, List.flatMap_cons, List.append_assoc]
    calc
      _ = after? (.needsValue (.item held :: outer)) (item.tokens ++ _) := rfl
      _ = after? (.arrayNext (item :: held) outer) _ := here _ _
      _ = _ := by rw [inductionHypothesis later, List.reverse_cons, List.append_assoc]; rfl

/-- An array is read back. -/
theorem reads_array {items : List Json} (each : ∀ item ∈ items, Reads item.tokens item) :
    Reads (tokens (.array items)) (.array items) := by
  intro outer rest
  rw [tokens, itemTokens_eq_map]
  cases items with
  | nil => rfl
  | cons item items =>
    obtain ⟨here, later⟩ := List.forall_mem_cons.mp each
    rw [List.map_cons, intercalate_comma_cons, List.cons_append, List.append_assoc,
      List.append_assoc]
    calc
      _ = after? (.arrayStart outer) (item.tokens ++ _) := rfl
      _ = after? (.needsValue (.item [] :: outer)) (item.tokens ++ _) :=
        after?_arrayStart item outer _
      _ = after? (.arrayNext [item] outer) _ := here _ _
      _ = _ := after?_arrayNext later [item] outer rest

/-- Behind a member, the members that follow are read up to the end of the object. -/
theorem after?_objectNext {members : List (List StringUnit × Json)}
    (each : ∀ member ∈ members, Reads member.2.tokens member.2)
    (held : List (List StringUnit × Json)) (outer : List Frame) (rest : List Token) :
    after? (.objectNext held outer)
        ((memberTokens members).flatMap (.comma :: ·) ++ .closeObject :: rest) =
      after? (place (.object (held.reverse ++ members)) outer) rest := by
  induction members generalizing held with
  | nil =>
    rw [List.append_nil]
    rfl
  | cons member members inductionHypothesis =>
    obtain ⟨name, value⟩ := member
    obtain ⟨here, later⟩ := List.forall_mem_cons.mp each
    rw [memberTokens, List.flatMap_cons, List.append_assoc]
    calc
      _ = after? (.needsValue (.member held name :: outer)) (value.tokens ++ _) := rfl
      _ = after? (.objectNext ((name, value) :: held) outer) _ := here _ _
      _ = _ := by rw [inductionHypothesis later, List.reverse_cons, List.append_assoc]; rfl

/-- An object is read back. -/
theorem reads_object {members : List (List StringUnit × Json)}
    (each : ∀ member ∈ members, Reads member.2.tokens member.2) :
    Reads (tokens (.object members)) (.object members) := by
  intro outer rest
  rw [tokens]
  cases members with
  | nil => rfl
  | cons member members =>
    obtain ⟨name, value⟩ := member
    obtain ⟨here, later⟩ := List.forall_mem_cons.mp each
    rw [memberTokens, intercalate_comma_cons, List.cons_append, List.append_assoc,
      List.append_assoc]
    calc
      _ = after? (.needsValue (.member [] name :: outer)) (value.tokens ++ _) := rfl
      _ = after? (.objectNext [(name, value)] outer) _ := here _ _
      _ = _ := after?_objectNext later [(name, value)] outer rest

/-- Every value is read back from its tokens. -/
theorem reads_tokens (json : Json) : Reads json.tokens json := by
  induction json using byParts with
  | step json inductionHypothesis =>
    cases json with
    | null | bool _ | number _ | string _ => exact fun _ _ => rfl
    | array items => exact reads_array inductionHypothesis
    | object members =>
      exact reads_object fun member inside =>
        inductionHypothesis member.2 (List.mem_map.mpr ⟨member, inside, rfl⟩)

end ParserState

/-- Every value is read back from each of its texts. -/
theorem Text.parsed {json : Json} {bytes : List UInt8} (text : json.Text bytes) :
    parse? bytes = some json := by
  have read := ParserState.reads_tokens json [] []
  rw [List.append_nil] at read
  rw [parse?, text.tokens_read]
  exact congrArg (fun state => state.bind ParserState.value?) read

end Json

end Treescribe
