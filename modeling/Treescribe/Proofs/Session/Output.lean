import Mathlib.Data.List.Induction
import Mathlib.Order.Bounds.Basic
import Treescribe.Proofs.Session.Agreement
import Treescribe.Proofs.Session.Writes

/-!
# What calls of an emitter write

An emitter notes where lines start apart from the text in its sink. The two never disagree:
whatever an emitter is asked to do, it takes itself to be at the start of a line exactly if the
text is empty or ends in a line feed. So what calls write can be said without the note:
`Layout.output` looks at the text alone.
-/

namespace Treescribe

/-- Whether the end of a text is the start of a line. -/
def Text.AtLineStart (text : String) : Prop :=
  text = "" ∨ text.toList.getLast? = some '\n'

instance (text : String) : Decidable (Text.AtLineStart text) :=
  inferInstanceAs (Decidable (_ ∨ _))

/-- More text leads to the start of a line if it ends in a line feed, or if there is none and
the start of a line was there before. -/
theorem Text.atLineStart_append_iff (held more : String) :
    AtLineStart (held ++ more) ↔
      match more.toList.getLast? with
      | none => AtLineStart held
      | some last => last = '\n' := by
  unfold AtLineStart
  rw [String.toList_append, List.getLast?_append]
  cases last : more.toList.getLast? with
  | none =>
    have empty : more = "" := String.toList_eq_nil_iff.mp (List.getLast?_eq_none_iff.mp last)
    simp [empty]
  | some c =>
    have nonempty : held ++ more ≠ "" := by
      rintro empty
      rw [← String.toList_eq_nil_iff, String.toList_append, List.append_eq_nil_iff] at empty
      rw [empty.2] at last
      cases last
    simp [nonempty]

namespace Call

/-- How deep calls lead from outside all blocks. -/
def depth (calls : List Call) : Nat :=
  calls.foldl deepen 0

/-- The indents among calls, less the dedents. -/
def gain (calls : List Call) : Int :=
  calls.count .indent - calls.count .dedent

/-- The text of a call without any layout. -/
def compactText : Call → String
  | .write text _ terminated => text ++ if terminated then ";" else ""
  | .indent | .dedent => ""

/-- The piece that a write adds to a pretty text, so deep in blocks: it is indented if there is
something to indent and the text so far ends at the start of a line. -/
def prettyPiece (depth : Nat) (soFar text : String) (newlines : Nat) (terminated : Bool) : String :=
  (if text ≠ "" ∧ Text.AtLineStart soFar then Emitter.repeated (4 * depth) ' ' else "") ++ text ++
    (if terminated then ";" else "") ++ Emitter.repeated newlines '\n'

/-- The pieces that calls add to a pretty text, one for each write. -/
def prettyPieces (depth : Nat) (soFar : String) : List Call → List String
  | [] => []
  | .write text newlines terminated :: rest =>
    let piece := prettyPiece depth soFar text newlines terminated
    piece :: prettyPieces depth (soFar ++ piece) rest
  | .indent :: rest => prettyPieces (depth + 1) soFar rest
  | .dedent :: rest => prettyPieces (depth - 1) soFar rest

end Call

/-- What calls write into an empty sink. -/
def Layout.output : Layout → List Call → String
  | .compact, calls => String.join (calls.map Call.compactText)
  | .pretty, calls => String.join (Call.prettyPieces 0 "" calls)

namespace Call

/-- What the last call adds to the gain of calls. -/
theorem gain_concat (calls : List Call) (call : Call) :
    gain (calls ++ [call]) = gain calls + gain [call] := by
  simp only [gain, List.count_append]
  omega

/-- A call leads as much deeper as it gains, but never out of more blocks than there are. -/
theorem deepen_cases (depth : Nat) (call : Call) :
    (depth : Int) + gain [call] ≤ deepen depth call ∧
      ((deepen depth call : Int) = depth + gain [call] ∨ deepen depth call = 0) := by
  cases call with
  | write => simp [deepen, gain]
  | indent =>
    have gained : gain [.indent] = 1 := by decide
    rw [gained, deepen]
    omega
  | dedent =>
    have gained : gain [.dedent] = -1 := by decide
    rw [gained, deepen]
    omega

/-- Calls lead as deep as their last ones gain, taken from where they gain most. -/
theorem isGreatest_depth (calls : List Call) :
    IsGreatest { gained | ∃ behind, behind <:+ calls ∧ gained = gain behind }
      (depth calls : Int) := by
  induction calls using List.reverseRecOn with
  | nil =>
    refine ⟨⟨[], List.suffix_rfl, rfl⟩, ?_⟩
    rintro gained ⟨behind, suffix, rfl⟩
    rw [List.suffix_nil.mp suffix]
    rfl
  | append_singleton calls call inductionHypothesis =>
    obtain ⟨⟨most, behindMost, reached⟩, bound⟩ := inductionHypothesis
    have deeper : depth (calls ++ [call]) = deepen (depth calls) call := by
      rw [depth, List.foldl_append]
      rfl
    obtain ⟨enough, gained⟩ := deepen_cases (depth calls) call
    rw [deeper]
    constructor
    · rcases gained with inside | outside
      · refine ⟨most ++ [call], List.suffix_concat_iff.mpr (.inr ⟨most, rfl, behindMost⟩), ?_⟩
        rw [inside, gain_concat, reached]
      · exact ⟨[], List.nil_suffix, by rw [outside]; rfl⟩
    · rintro _ ⟨behind, suffix, rfl⟩
      rcases List.suffix_concat_iff.mp suffix with rfl | ⟨front, rfl, frontSuffix⟩
      · exact Int.natCast_nonneg _
      · have within := bound ⟨front, frontSuffix, rfl⟩
        rw [gain_concat]
        exact (Int.add_le_add_right within _).trans enough

end Call

namespace Emitter

/-- An emitter that takes itself to be at the start of a line exactly if its text ends there. -/
def Tracks (emitter : Emitter) : Prop :=
  emitter.atLineStart = true ↔ Text.AtLineStart emitter.sink.text

/-- Every call keeps the note of line starts true, if it was so before. -/
theorem Tracks.next {emitter : Emitter} (unlimited : emitter.sink.limit = none)
    (tracks : emitter.Tracks) (call : Call) : (emitter.next call).Tracks := by
  cases call with
  | write text newlines terminated =>
    rw [next_write_of_unlimited unlimited]
    unfold Tracks lineStartAfter
    rw [Text.atLineStart_append_iff]
    cases (emitter.laidOut text newlines terminated).toList.getLast? with
    | none => exact tracks
    | some last => exact beq_iff_eq
  | indent | dedent => exact tracks

/-- Calls lead as deep as they do, whether or not they succeed. -/
theorem depth_after (emitter : Emitter) (calls : List Call) :
    (emitter.after calls).depth = calls.foldl Call.deepen emitter.depth := by
  induction calls generalizing emitter with
  | nil => rfl
  | cons call rest inductionHypothesis =>
    rw [List.foldl_cons, ← depth_next]
    exact inductionHypothesis (emitter.next call)

/-- In compact layout calls write their texts. -/
theorem text_after_of_compact {emitter : Emitter} (unlimited : emitter.sink.limit = none)
    (compact : emitter.layout = .compact) (calls : List Call) :
    (emitter.after calls).sink.text =
      emitter.sink.text ++ String.join (calls.map Call.compactText) := by
  induction calls generalizing emitter with
  | nil => simp [after]
  | cons call rest inductionHypothesis =>
    have added : (emitter.next call).sink.text = emitter.sink.text ++ call.compactText := by
      cases call with
      | write text newlines terminated =>
        rw [next_write_of_unlimited unlimited]
        simp [laidOut, indentation, compact, Call.compactText]
      | indent | dedent => exact String.append_empty.symm
    have unlimitedNext : (emitter.next call).sink.limit = none := by rw [next_limit, unlimited]
    have compactNext : (emitter.next call).layout = .compact := by rw [next_layout, compact]
    have later := inductionHypothesis unlimitedNext compactNext
    rw [List.map_cons, String.join_cons, ← String.append_assoc, ← added]
    exact later

/-- In pretty layout an emitter that tracks its text lays out the piece which that text asks
for. -/
theorem Tracks.laidOut {emitter : Emitter} (tracks : emitter.Tracks)
    (pretty : emitter.layout = .pretty) (text : String) (newlines : Nat) (terminated : Bool) :
    emitter.laidOut text newlines terminated =
      Call.prettyPiece emitter.depth emitter.sink.text text newlines terminated := by
  have indented : emitter.indentation text =
      if text ≠ "" ∧ Text.AtLineStart emitter.sink.text then repeated (4 * emitter.depth) ' '
      else "" := by
    have noted : Text.AtLineStart emitter.sink.text ↔ emitter.atLineStart = true := tracks.symm
    unfold indentation
    simp only [pretty, noted]
    cases emitter.atLineStart <;> simp
  rw [Emitter.laidOut, Call.prettyPiece, indented, pretty, if_pos rfl]

/-- In pretty layout calls write the pieces that the text before them asks for. -/
theorem Tracks.text_after {emitter : Emitter} (unlimited : emitter.sink.limit = none)
    (tracks : emitter.Tracks) (pretty : emitter.layout = .pretty) (calls : List Call) :
    (emitter.after calls).sink.text = emitter.sink.text ++
      String.join (Call.prettyPieces emitter.depth emitter.sink.text calls) := by
  induction calls generalizing emitter with
  | nil => simp [Emitter.after, Call.prettyPieces]
  | cons call rest inductionHypothesis =>
    have unlimitedNext : (emitter.next call).sink.limit = none := by rw [next_limit, unlimited]
    have later := inductionHypothesis unlimitedNext (tracks.next unlimited call)
      (by rw [next_layout, pretty])
    cases call with
    | write text newlines terminated =>
      have added : (emitter.next (.write text newlines terminated)).sink.text =
          emitter.sink.text ++
            Call.prettyPiece emitter.depth emitter.sink.text text newlines terminated := by
        rw [next_write_of_unlimited unlimited, tracks.laidOut pretty]
      rw [added, depth_next, String.append_assoc] at later
      rw [Call.prettyPieces, String.join_cons]
      exact later
    | indent | dedent => exact later

/-- Whatever a new emitter is asked to do with a sink that has no limit, every call succeeds,
and behind each the emitter takes itself to be at the start of a line exactly if the text is
empty or ends in a line feed. So the text is that of `Layout.output`, and the depth of the
indentation is what the calls gained since dedents last took back all there was. -/
theorem output_of_calls (layout : Layout) (calls : List Call) :
    ∃ final, ({ layout } : Emitter).performAll calls = (.ok (), final) ∧
      (final.atLineStart = true ↔
        final.sink.text = "" ∨ final.sink.text.toList.getLast? = some '\n') ∧
      final.sink.text = layout.output calls ∧
      final.depth = Call.depth calls ∧
      IsGreatest { gained | ∃ behind, behind <:+ calls ∧ gained = Call.gain behind }
        (Call.depth calls : Int) := by
  have new : ({ layout } : Emitter).Tracks := by simp [Tracks, Text.AtLineStart]
  refine ⟨({ layout } : Emitter).after calls, performAll_of_unlimited rfl calls,
    kept_after Tracks.next rfl new calls, ?_, depth_after .., Call.isGreatest_depth calls⟩
  cases layout with
  | compact => exact (text_after_of_compact rfl rfl calls).trans String.empty_append
  | pretty => exact (new.text_after rfl rfl calls).trans String.empty_append

/-- Indentation that is not there cannot be taken back, and an open line is indented once. -/
example : Layout.output .pretty [.dedent, .indent, .write "x = " 0 false, .write "f()" 1 true] =
    "    x = f();\n" := by decide +kernel

end Emitter

end Treescribe
