import Mathlib.Tactic.SplitIfs
import Treescribe.Text.Scan

/-!
# Nested brackets

A balanced text opens and closes its own literals and brackets, and no others. Wherever a scan
stands in code, it passes over such a text and stands there again, at the same depth; the marks
it leaves differ from those of the text alone by that depth. A text joined from balanced ones
is therefore marked part by part, and comes apart at the separators between them.
-/

namespace Treescribe.Text

/-- The brackets of either type, opening or closing. -/
def isBracket (c : Char) : Bool :=
  c == '(' || c == '[' || c == ')' || c == ']'

/-- So many more brackets open around a scan. -/
def ScanState.deepen (state : ScanState) (levels : Nat) : ScanState :=
  { state with depth := state.depth + levels }

/-- So many more brackets open around a mark. -/
def Mark.deepen (mark : Mark) (levels : Nat) : Mark :=
  { mark with depth? := mark.depth?.map (· + levels) }

/-- A scan of a text that closes no bracket where none is open. -/
def ClosesOwn (state : ScanState) (text : List Char) : Prop :=
  ⟨')', some 0⟩ ∉ marksFrom state text ∧ ⟨']', some 0⟩ ∉ marksFrom state text

/-- A text whose literals are closed and whose brackets are, each after it was opened. -/
structure Balanced (text : List Char) : Prop where
  settles : ({} : ScanState).after text = {}
  closesOwn : ClosesOwn {} text

/-- A balanced text without a comma outside its brackets and literals. -/
structure WellNested (text : List Char) : Prop extends Balanced text where
  noComma : ⟨',', some 0⟩ ∉ marks text

instance (state : ScanState) (text : List Char) : Decidable (ClosesOwn state text) :=
  inferInstanceAs (Decidable (_ ∧ _))

instance (text : List Char) : Decidable (Balanced text) :=
  decidable_of_iff (({} : ScanState).after text = {} ∧ ClosesOwn {} text)
    ⟨fun ⟨settles, closesOwn⟩ => ⟨settles, closesOwn⟩,
      fun ⟨settles, closesOwn⟩ => ⟨settles, closesOwn⟩⟩

instance (text : List Char) : Decidable (WellNested text) :=
  decidable_of_iff (Balanced text ∧ ⟨',', some 0⟩ ∉ marks text)
    ⟨fun ⟨balanced, noComma⟩ => ⟨balanced, noComma⟩,
      fun ⟨balanced, noComma⟩ => ⟨balanced, noComma⟩⟩

/-- Each character of a text has its mark. -/
theorem length_marks (text : List Char) : (marks text).length = text.length := by
  rw [← List.length_map Mark.char]
  exact congrArg List.length (unmark_marksFrom {} text)

/-- A text is scanned from left to right. -/
theorem ScanState.after_append (state : ScanState) (first second : List Char) :
    state.after (first ++ second) = (state.after first).after second :=
  List.foldl_append

/-- A character is scanned alike at any depth, unless it closes a bracket where none is open. -/
theorem ScanState.step_deepen {state : ScanState} {c : Char}
    (own : state.codeDepth? = some 0 → c ≠ ')' ∧ c ≠ ']') (levels : Nat) :
    (state.deepen levels).step c = (state.step c).deepen levels := by
  obtain ⟨mode, depth⟩ := state
  cases mode with
  | escaped quote => rfl
  | quoted quote =>
    simp only [step, deepen]
    split_ifs <;> rfl
  | code =>
    simp only [step, deepen]
    split_ifs with quote opens closes
    · rfl
    · simp only [Nat.add_right_comm]
    · have nested : depth ≠ 0 := by
        rintro rfl
        simp [own rfl] at closes
      have lower : depth + levels - 1 = depth - 1 + levels := by omega
      rw [lower]
    · rfl

/-- A text is scanned and marked alike at any depth, if it closes none but its own brackets. -/
theorem scan_deepen {state : ScanState} {text : List Char} (own : ClosesOwn state text)
    (levels : Nat) :
    (state.deepen levels).after text = (state.after text).deepen levels ∧
      marksFrom (state.deepen levels) text =
        (marksFrom state text).map (Mark.deepen · levels) := by
  induction text generalizing state with
  | nil => exact ⟨rfl, rfl⟩
  | cons c rest inductionHypothesis =>
    simp only [ClosesOwn, marksFrom, List.mem_cons, not_or] at own
    obtain ⟨⟨parenthesis, parentheses⟩, bracket, brackets⟩ := own
    have first : state.codeDepth? = some 0 → c ≠ ')' ∧ c ≠ ']' := by
      intro outside
      rw [outside] at parenthesis bracket
      exact ⟨fun same => parenthesis (by rw [same]), fun same => bracket (by rw [same])⟩
    have stepped := ScanState.step_deepen first levels
    obtain ⟨after, marks⟩ := inductionHypothesis ⟨parentheses, brackets⟩
    have depth : (state.deepen levels).codeDepth? = state.codeDepth?.map (· + levels) := by
      obtain ⟨mode, depth⟩ := state
      cases mode <;> rfl
    refine ⟨?_, ?_⟩
    · rw [ScanState.after, List.foldl_cons, stepped]
      exact after
    · rw [marksFrom, stepped, marks, depth]
      rfl

namespace Balanced

variable {text first second : List Char}

/-- A scan in code passes over a balanced text. -/
theorem after (balanced : Balanced text) (depth : Nat) :
    ({ depth } : ScanState).after text = { depth } := by
  have scanned := (scan_deepen balanced.closesOwn depth).1
  rw [balanced.settles] at scanned
  simpa [ScanState.deepen] using scanned

/-- The marks of a balanced text at some depth are its own, so much deeper. -/
theorem marksFrom (balanced : Balanced text) (depth : Nat) :
    Text.marksFrom { depth } text = (marks text).map (Mark.deepen · depth) := by
  have marked := (scan_deepen balanced.closesOwn depth).2
  simpa [ScanState.deepen, marks] using marked

/-- What follows a balanced text is marked as it is alone. -/
theorem marks_append (balanced : Balanced first) (second : List Char) :
    marks (first ++ second) = marks first ++ marks second := by
  rw [marks, marksFrom_append, balanced.settles]
  rfl

/-- The marks behind a balanced text are those of what follows it. -/
theorem drop_marks_append (balanced : Balanced first) (second : List Char) :
    (marks (first ++ second)).drop first.length = marks second := by
  rw [balanced.marks_append, ← length_marks first, List.drop_left]

/-- Balanced texts are balanced together. -/
theorem append (balanced : Balanced first) (other : Balanced second) :
    Balanced (first ++ second) := by
  refine ⟨by rw [ScanState.after_append, balanced.settles, other.settles], ?_⟩
  have own := balanced.closesOwn
  have otherOwn := other.closesOwn
  have joined := balanced.marks_append second
  unfold marks at joined
  unfold ClosesOwn at own otherOwn ⊢
  simp only [joined, List.mem_append, not_or]
  exact ⟨⟨own.1, otherOwn.1⟩, own.2, otherOwn.2⟩

end Balanced

/-- A character that is no bracket and opens no literal leaves a scan in code where it is. -/
theorem ScanState.step_plain {c : Char} (plain : isBracket c = false) (unquoted : isQuote c = false)
    (depth : Nat) : ({ depth } : ScanState).step c = { depth } := by
  simp only [isBracket, Bool.or_eq_false_iff] at plain
  simp [step, unquoted, plain]

/-- A text without brackets and literals is balanced. -/
theorem balanced_plain {text : List Char}
    (plain : ∀ c ∈ text, isBracket c = false ∧ isQuote c = false) : Balanced text := by
  induction text with
  | nil => exact ⟨rfl, by decide⟩
  | cons c rest inductionHypothesis =>
    obtain ⟨bracket, quote⟩ := plain c (by simp)
    have later := inductionHypothesis fun other member => plain other (by simp [member])
    have first : Balanced [c] := by
      refine ⟨ScanState.step_plain bracket quote 0, ?_⟩
      have other : c ≠ ')' ∧ c ≠ ']' := by
        constructor <;> rintro rfl <;> simp [isBracket] at bracket
      simp [ClosesOwn, Text.marksFrom, other.1.symm, other.2.symm]
    exact first.append later

/-- Balanced texts joined by a character in code are balanced, and marked part by part. -/
theorem scan_intercalate {texts : List (List Char)}
    (balanced : ∀ text ∈ texts, Balanced text) {c : Char} (plain : isBracket c = false)
    (unquoted : isQuote c = false) :
    Balanced (List.intercalate [c] texts) ∧
      marks (List.intercalate [c] texts) =
        List.intercalate [⟨c, some 0⟩] (texts.map marks) := by
  have separator : Balanced [c] := balanced_plain (by simp [plain, unquoted])
  have separates : marks [c] = [⟨c, some 0⟩] := rfl
  induction texts with
  | nil => exact ⟨balanced_plain (by simp), rfl⟩
  | cons text rest inductionHypothesis =>
    have first := balanced text (by simp)
    obtain ⟨later, marked⟩ :=
      inductionHypothesis fun other member => balanced other (by simp [member])
    cases rest with
    | nil => simpa using first
    | cons next others =>
      rw [List.intercalate_cons_cons, List.map_cons, List.map_cons, List.intercalate_cons_cons]
      refine ⟨(first.append separator).append later, ?_⟩
      rw [(first.append separator).marks_append, first.marks_append, separates, marked,
        List.map_cons]

/-- Joined by commas, well-nested texts come apart at the commas outside all brackets. -/
theorem splitOnP_marks_intercalate {texts : List (List Char)} (nonempty : texts ≠ [])
    (nested : ∀ text ∈ texts, WellNested text) :
    (marks (List.intercalate [','] texts)).splitOnP (·.isCodeAt ',' 0) = texts.map marks := by
  have marked := (scan_intercalate (fun text member => (nested text member).toBalanced)
    (c := ',') rfl rfl).2
  have separator : (fun mark : Mark => mark.isCodeAt ',' 0) = (· == ⟨',', some 0⟩) := by
    funext ⟨c, depth?⟩
    rw [Bool.eq_iff_iff]
    simp [Mark.isCodeAt]
  rw [marked, separator]
  apply List.splitOn_intercalate
  · intro part member
    obtain ⟨text, textMem, rfl⟩ := List.mem_map.mp member
    exact (nested text textMem).noComma
  · simpa using nonempty

end Treescribe.Text
