import Flowmark.Markup.Extraction

namespace Flowmark

/-!
# Segments in sequence

What a run of comments contributes depends on its segments and their places alone: reading comment
after comment is reading all their segments in one sequence, up to the first fault.
-/

/-- A segment with the place at which its mark stands. -/
structure PlacedSegment where
  location : Location
  segment : Segment
  deriving Repr, DecidableEq

namespace Comment

/-- Segments of a comment with their places, the first having a given rank. -/
def placeFrom
    (comment : Comment)
    (first : Nat)
    (segments : List Segment) :
    List PlacedSegment :=
  (segments.zipIdx first).map fun (segment, rank) => {
    location := {
      source := comment.source
      line := comment.line
      comment := comment.rank
      rank := rank }
    segment := segment }

/-- The segments of a comment with their places, counted from one. -/
def placedSegments
    (table : KeywordTable)
    (comment : Comment) :
    List PlacedSegment :=
  comment.placeFrom 1 (table.segments comment.text.toList)

end Comment

/-- The segments of comments in the order of the comments' keys, with their places. -/
def KeywordTable.placedSegments
    (table : KeywordTable)
    (comments : List Comment) :
    List PlacedSegment :=
  (Comment.sort comments).flatMap (Comment.placedSegments table)

namespace Extraction

/-- Read segments one after another, up to the first fault. -/
def read
    (table : KeywordTable) :
    Extraction → List PlacedSegment → Except Fault Extraction
  | extraction, [] => .ok extraction
  | extraction, placed :: rest =>
      match extraction.addSegment table placed.location placed.segment with
      | .error fault => .error fault
      | .ok next => read table next rest

/-- Reading two lists of segments is reading the first and, unless it fails, the second. -/
theorem read_append
    (table : KeywordTable)
    (extraction : Extraction)
    (first second : List PlacedSegment) :
    extraction.read table (first ++ second) =
      match extraction.read table first with
      | .error fault => .error fault
      | .ok next => next.read table second := by
  induction first generalizing extraction with
  | nil => rfl
  | cons placed first inductionHypothesis =>
      rw [List.cons_append, read, read]
      cases extraction.addSegment table placed.location placed.segment with
      | error fault => rfl
      | ok next => exact inductionHypothesis next

/-- The segments of a comment are added by reading them at their places. -/
theorem addSegments_eq_read
    (table : KeywordTable)
    (comment : Comment)
    (rank : Nat)
    (extraction : Extraction)
    (segments : List Segment) :
    (∃ next,
      extraction.read table (comment.placeFrom rank segments) = .ok next ∧
        addSegments table comment rank extraction segments = (next, none)) ∨
      ∃ fault partway,
        extraction.read table (comment.placeFrom rank segments) = .error fault ∧
          addSegments table comment rank extraction segments = (partway, some fault) := by
  induction segments generalizing rank extraction with
  | nil => exact Or.inl ⟨extraction, rfl, rfl⟩
  | cons segment segments inductionHypothesis =>
      have shape :
          comment.placeFrom rank (segment :: segments) =
            ⟨segmentLocation comment rank, segment⟩ :: comment.placeFrom (rank + 1) segments :=
        rfl
      rw [shape, read, addSegments]
      cases extraction.addSegment table (segmentLocation comment rank) segment with
      | error fault => exact Or.inr ⟨fault, extraction, rfl, rfl⟩
      | ok next => exact inductionHypothesis (rank + 1) next

/-- Comments are added by reading their segments one after another. -/
theorem addComments_eq_read
    (table : KeywordTable)
    (extraction : Extraction)
    (comments : List Comment) :
    extraction.addComments table comments =
      extraction.read table (comments.flatMap (Comment.placedSegments table)) := by
  induction comments generalizing extraction with
  | nil => rfl
  | cons comment comments inductionHypothesis =>
      rw [addComments, addComment, List.flatMap_cons, read_append, Comment.placedSegments]
      rcases addSegments_eq_read table comment 1 extraction
          (table.segments comment.text.toList) with
        ⟨next, isRead, added⟩ | ⟨fault, partway, isRead, added⟩
      · simp only [isRead, added]
        exact inductionHypothesis next
      · simp only [isRead, added]

end Extraction

namespace Transcript

/-- The transcript of comments is what their segments are read as, in order. -/
theorem ofComments_eq_read
    (table : KeywordTable)
    (comments : List Comment) :
    ofComments table comments =
      (Extraction.start.read table (table.placedSegments comments)).map
        Extraction.transcript := by
  rw [ofComments, Extraction.addComments_eq_read, KeywordTable.placedSegments]

end Transcript

end Flowmark
