import Treescribe.Text.Scan

/-!
# The end of a literal

A scan that has passed an opening quote stands inside a literal until it meets that quote again,
not escaped. `closing?` is the place where that happens first. What stands before it is a sealed
body: the shape of sealed bodies is said here without the scan, and the two agree.
-/

namespace Treescribe.Text

/-- The place of the first character behind which a scan stands in code. -/
def closingFrom? (state : ScanState) : List Char → Option Nat
  | [] => none
  | c :: rest =>
    if (state.step c).mode = .code then some 0
    else (closingFrom? (state.step c) rest).map (· + 1)

/-- The place of the character that closes the literal a text opens with. -/
def closing? (text : List Char) : Option Nat :=
  closingFrom? {} text

/-- A body that leaves the literal around it open: its quotes are escaped, and it has no backslash
left over that would escape the quote behind it. -/
def isSealed (quote : Char) : List Char → Bool
  | [] => true
  | c :: rest =>
    if c = '\\' then
      match rest with
      | [] => false
      | _ :: later => isSealed quote later
    else c != quote && isSealed quote rest

/-- A character other than a backslash is sealed unless it is the quote. -/
theorem isSealed_cons {quote c : Char} (backslash : c ≠ '\\') (rest : List Char) :
    isSealed quote (c :: rest) = (c != quote && isSealed quote rest) := by
  rw [isSealed.eq_def]
  exact if_neg backslash

/-- The quotes are no backslashes. -/
theorem ne_backslash_of_isQuote {quote : Char} (opens : isQuote quote) : quote ≠ '\\' := by
  rintro rfl
  exact absurd opens (by decide)

section Inside

variable {quote : Char} {depth : Nat}

/-- Inside a literal a backslash is passed over together with the character behind it. -/
theorem closingFrom?_escape (c : Char) (rest : List Char) :
    closingFrom? ⟨.quoted quote, depth⟩ ('\\' :: c :: rest) =
      (closingFrom? ⟨.quoted quote, depth⟩ rest).map (· + 2) := by
  simp [closingFrom?, ScanState.step, Function.comp_def]

/-- Inside a literal its own quote closes it. -/
theorem closingFrom?_quote (solid : quote ≠ '\\') (rest : List Char) :
    closingFrom? ⟨.quoted quote, depth⟩ (quote :: rest) = some 0 := by
  simp [closingFrom?, ScanState.step, solid]

/-- Inside a literal any other character is passed over. -/
theorem closingFrom?_plain {c : Char} (backslash : c ≠ '\\') (other : c ≠ quote)
    (rest : List Char) :
    closingFrom? ⟨.quoted quote, depth⟩ (c :: rest) =
      (closingFrom? ⟨.quoted quote, depth⟩ rest).map (· + 1) := by
  simp [closingFrom?, ScanState.step, backslash, other]

/-- A literal is closed behind its sealed body. -/
theorem closingFrom?_of_isSealed (solid : quote ≠ '\\') {body : List Char}
    (closed : isSealed quote body) (behind : List Char) :
    closingFrom? ⟨.quoted quote, depth⟩ (body ++ quote :: behind) = some body.length := by
  fun_induction isSealed quote body with
  | case1 => exact closingFrom?_quote solid behind
  | case2 => cases closed
  | case3 escaped later inductionHypothesis =>
    rw [List.cons_append, List.cons_append, closingFrom?_escape, inductionHypothesis closed]
    rfl
  | case4 c rest backslash inductionHypothesis =>
    rw [Bool.and_eq_true, bne_iff_ne] at closed
    rw [List.cons_append, closingFrom?_plain backslash closed.1, inductionHypothesis closed.2]
    rfl

/-- What stands before the place where a literal is closed is a sealed body. -/
theorem exists_of_closingFrom? {text : List Char} {place : Nat}
    (found : closingFrom? ⟨.quoted quote, depth⟩ text = some place) :
    ∃ body behind, text = body ++ quote :: behind ∧ isSealed quote body ∧ body.length = place := by
  fun_induction isSealed quote text generalizing place with
  | case1 => cases found
  | case2 => cases found
  | case3 escaped later inductionHypothesis =>
    rw [closingFrom?_escape, Option.map_eq_some_iff] at found
    obtain ⟨further, found, rfl⟩ := found
    obtain ⟨body, behind, rfl, closed, rfl⟩ := inductionHypothesis found
    exact ⟨'\\' :: escaped :: body, behind, rfl, by simpa [isSealed] using closed, rfl⟩
  | case4 c rest backslash inductionHypothesis =>
    by_cases same : c = quote
    · subst same
      rw [closingFrom?_quote backslash] at found
      cases found
      exact ⟨[], rest, rfl, rfl, rfl⟩
    · rw [closingFrom?_plain backslash same, Option.map_eq_some_iff] at found
      obtain ⟨further, found, rfl⟩ := found
      obtain ⟨body, behind, rfl, closed, rfl⟩ := inductionHypothesis found
      exact ⟨c :: body, behind, rfl, by simp [isSealed_cons backslash, same, closed], rfl⟩

/-- A scan inside a literal passes over a sealed body, and none of it stands in code. -/
theorem scan_of_isSealed {body : List Char} (closed : isSealed quote body) (depth : Nat) :
    ScanState.after ⟨.quoted quote, depth⟩ body = ⟨.quoted quote, depth⟩ ∧
      marksFrom ⟨.quoted quote, depth⟩ body = body.map (⟨·, none⟩) := by
  fun_induction isSealed quote body with
  | case1 => exact ⟨rfl, rfl⟩
  | case2 => cases closed
  | case3 escaped later inductionHypothesis =>
    obtain ⟨after, marked⟩ := inductionHypothesis closed
    exact ⟨after, congrArg (Mark.mk '\\' none :: Mark.mk escaped none :: ·) marked⟩
  | case4 c rest backslash inductionHypothesis =>
    rw [Bool.and_eq_true, bne_iff_ne] at closed
    have stays : ScanState.step ⟨.quoted quote, depth⟩ c = ⟨.quoted quote, depth⟩ := by
      simp [ScanState.step, backslash, closed.1]
    obtain ⟨after, marked⟩ := inductionHypothesis closed.2
    refine ⟨?_, ?_⟩
    · rw [ScanState.after, List.foldl_cons, stays]
      exact after
    · rw [marksFrom, stays, marked]
      rfl

end Inside

variable {quote : Char}

/-- A quote opens a literal. -/
theorem step_of_isQuote (opens : isQuote quote) (depth : Nat) :
    ({ depth } : ScanState).step quote = ⟨.quoted quote, depth⟩ := by
  simp [ScanState.step, opens]

/-- The literal a text opens with is closed by its last character exactly if the text is a sealed
body between two quotes. -/
theorem closing?_eq_last_iff (opens : isQuote quote) {text : List Char}
    (first : text.head? = some quote) :
    closing? text = some (text.length - 1) ↔
      ∃ body, text = [quote] ++ body ++ [quote] ∧ isSealed quote body := by
  obtain ⟨rest, rfl⟩ := List.head?_eq_some_iff.mp first
  have inside : closing? (quote :: rest) =
      (closingFrom? ⟨.quoted quote, 0⟩ rest).map (· + 1) := by
    rw [closing?, closingFrom?, step_of_isQuote opens]
    rfl
  rw [inside]
  constructor
  · intro last
    obtain ⟨place, found, last⟩ := Option.map_eq_some_iff.mp last
    obtain ⟨body, behind, rfl, closed, rfl⟩ := exists_of_closingFrom? found
    have nothing : behind = [] := by
      simp only [List.length_cons, List.length_append] at last
      exact List.length_eq_zero_iff.mp (by omega)
    exact ⟨body, by rw [nothing]; rfl, closed⟩
  · rintro ⟨body, same, closed⟩
    obtain rfl : rest = body ++ [quote] := by simpa using same
    rw [closingFrom?_of_isSealed (ne_backslash_of_isQuote opens) closed]
    simp

/-- Of a literal with a sealed body only the opening quote stands in code. -/
theorem marks_literal (opens : isQuote quote) {body : List Char} (closed : isSealed quote body) :
    marks ([quote] ++ body ++ [quote]) = ⟨quote, some 0⟩ :: (body ++ [quote]).map (⟨·, none⟩) := by
  obtain ⟨after, marked⟩ := scan_of_isSealed closed 0
  have opened : marks ([quote] ++ body ++ [quote]) =
      ⟨quote, some 0⟩ :: marksFrom ⟨.quoted quote, 0⟩ (body ++ [quote]) := by
    rw [← step_of_isQuote opens]
    rfl
  rw [opened, marksFrom_append, after, marked, List.map_append]
  rfl

end Treescribe.Text
