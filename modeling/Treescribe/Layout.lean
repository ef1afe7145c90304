/-!
# Layout

How the target text is laid out, and what a transcription may choose.
-/

namespace Treescribe

/-- Compact text has no line breaks and no indentation of its own. -/
inductive Layout where
  | compact
  | pretty
deriving DecidableEq, Repr

/-- The choices of a transcript. The preamble is the pair of `using` directives
that every complete file starts with. -/
structure Options where
  layout : Layout := .compact
  preamble : Bool := true
deriving DecidableEq, Repr

end Treescribe
