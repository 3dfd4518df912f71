import Flowmark.Keyword.Table

namespace Flowmark

open Text

/-! # How far a buffer matches the keywords

While a text is read character by character, the characters read so far are compared with all
keywords of a table.  A whole keyword is recognised at once, even where a longer keyword begins
with it.
-/

/-- The ways in which a buffer can relate to a set of keywords. -/
inductive Extent where
  /-- No keyword begins with the buffer. -/
  | apart
  /-- The buffer is a proper beginning of some keyword and itself none. -/
  | begun
  /-- The buffer is a keyword. -/
  | whole
  deriving Repr, DecidableEq

namespace KeywordTable

/-- Compare a buffer with the keywords without regard to case. -/
def extent
    (table : KeywordTable)
    (buffer : List Char) :
    Extent :=
  if foldCase buffer ∈ table.keywords then
    .whole
  else if table.keywords.any (foldCase buffer).isPrefixOf then
    .begun
  else
    .apart

/-- A buffer is a whole keyword exactly when it has a tag. -/
theorem extent_eq_whole_iff
    (table : KeywordTable)
    (buffer : List Char) :
    table.extent buffer = .whole ↔ (table.tag? buffer).isSome := by
  rw [isSome_tag?]
  unfold extent
  split
  · simpa
  · split <;> simpa

end KeywordTable

end Flowmark
