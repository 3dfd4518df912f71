import Flowmark.Keyword.Extent
import Flowmark.Text.Blank

namespace Flowmark

open Text

/-! # Segments of a comment

A segment is one markup unit of a comment: it starts at a keyword and runs up to the next keyword
or to the end of the comment.  The text is read character by character into a buffer.  A buffer
that begins a keyword grows on, a buffer that is a keyword starts a segment, and any other buffer
is ordinary text, dropped as a whole.  So `@@in` has no segment: the buffer `@@` is dropped, and
`in` is no keyword.
-/

/-- A markup unit without the blanks around it, and the byte of the comment at which it starts. -/
structure Segment where
  text : List Char
  start : Nat
  deriving Repr, DecidableEq

/-- The byte of the comment just after the segment. -/
def Segment.stop
    (segment : Segment) :
    Nat :=
  segment.start + byteWidth segment.text

/-- A text cut before each of its keywords: what stands before the first, then one part each. -/
structure Division where
  prose : List Char
  parts : List (List Char)
  deriving Repr, DecidableEq

namespace Division

/-- The divided text. -/
def text
    (division : Division) :
    List Char :=
  division.prose ++ division.parts.flatten

/-- Put ordinary text in front of a division. -/
def prepend
    (before : List Char)
    (division : Division) :
    Division where
  prose := before ++ division.prose
  parts := division.parts

/-- Put a keyword in front of a division, so that the text up to the next keyword is its part. -/
def openPart
    (keyword : List Char)
    (division : Division) :
    Division where
  prose := []
  parts := (keyword ++ division.prose) :: division.parts

@[simp] theorem text_prepend
    (before : List Char)
    (division : Division) :
    (division.prepend before).text = before ++ division.text := by
  simp [prepend, text]

@[simp] theorem text_openPart
    (keyword : List Char)
    (division : Division) :
    (division.openPart keyword).text = keyword ++ division.text := by
  simp [openPart, text]

end Division

namespace KeywordTable

/-- Divide a text at its keywords, a buffer of characters being compared already. -/
def divideFrom
    (table : KeywordTable)
    (buffer : List Char) :
    List Char → Division
  | [] =>
      { prose := buffer
        parts := [] }
  | c :: rest =>
      match table.extent (buffer ++ [c]) with
      | .apart => (table.divideFrom [] rest).prepend (buffer ++ [c])
      | .begun => table.divideFrom (buffer ++ [c]) rest
      | .whole => (table.divideFrom [] rest).openPart (buffer ++ [c])

/-- Divide a text at its keywords. -/
def divide
    (table : KeywordTable)
    (text : List Char) :
    Division :=
  table.divideFrom [] text

/-- A division drops nothing. -/
theorem text_divideFrom
    (table : KeywordTable)
    (buffer text : List Char) :
    (table.divideFrom buffer text).text = buffer ++ text := by
  induction text generalizing buffer with
  | nil => simp [divideFrom, Division.text]
  | cons c rest inductionHypothesis =>
      unfold divideFrom
      split <;> simp [inductionHypothesis]

/-- Dividing a text loses nothing of it. -/
@[simp] theorem text_divide
    (table : KeywordTable)
    (text : List Char) :
    (table.divide text).text = text :=
  table.text_divideFrom [] text

end KeywordTable

namespace Segment

/-- The segment that a part of a comment holds, the part starting at a given byte. -/
def ofPart
    (offset : Nat)
    (part : List Char) :
    Segment where
  text := trim part
  start := offset + byteWidth (part.takeWhile isBlank)

/-- The segments of consecutive parts, the first part starting at a given byte. -/
def ofParts
    (offset : Nat) :
    List (List Char) → List Segment
  | [] => []
  | part :: parts => ofPart offset part :: ofParts (offset + byteWidth part) parts

end Segment

namespace KeywordTable

/-- The segments of a text, in order. -/
def segments
    (table : KeywordTable)
    (text : List Char) :
    List Segment :=
  let division := table.divide text
  Segment.ofParts (byteWidth division.prose) division.parts

end KeywordTable

end Flowmark
