import Flowmark.Markup.Clause
import Flowmark.Markup.Transcript
import Flowmark.Comment
import Flowmark.Segment

namespace Flowmark

/-! # Extraction

Extraction reads comments one after another into a transcript.  What it carries from one comment
to the next is the transcript so far and the number of the latest primary, to which qualifiers
attach.  A fault ends the comment in which it stands; the marks before it remain.
-/

/-- The marks read so far and the number of the latest primary among them. -/
structure Extraction where
  transcript : Transcript
  latestPrimary : Option MarkId
  deriving Repr, DecidableEq

namespace Extraction

/-- The state before any comment. -/
def start : Extraction where
  transcript := .empty
  latestPrimary := none

instance : Inhabited Extraction :=
  ⟨start⟩

/-- Add the mark of a clause at a place; a qualifier needs a primary before it. -/
def addClause
    (extraction : Extraction)
    (location : Location)
    (clause : Clause) :
    Except Fault Extraction :=
  if clause.tag.isQualifier then
    match extraction.latestPrimary with
    | none => .error ⟨location, .orphanQualifier clause.tag⟩
    | some primary =>
        .ok { extraction with
          transcript := extraction.transcript.push (clause.entry location (some primary)) }
  else
    .ok {
      transcript := extraction.transcript.push (clause.entry location none)
      latestPrimary := some extraction.transcript.nextId }

/-- Read one segment at a place. -/
def addSegment
    (table : KeywordTable)
    (extraction : Extraction)
    (location : Location)
    (segment : Segment) :
    Except Fault Extraction :=
  match Clause.read table segment.text with
  | .error cause => .error ⟨location, cause⟩
  | .ok clause => extraction.addClause location clause

/-- The place of a segment of a comment, the segments being counted from one. -/
def segmentLocation
    (comment : Comment)
    (rank : Nat) :
    Location :=
  { comment.location with rank := rank }

/-- Read the segments of a comment, the first having a given rank, up to the first fault. -/
def addSegments
    (table : KeywordTable)
    (comment : Comment) :
    (rank : Nat) → Extraction → List Segment → Extraction × Option Fault
  | _, extraction, [] => (extraction, none)
  | rank, extraction, segment :: segments =>
      match extraction.addSegment table (segmentLocation comment rank) segment with
      | .error fault => (extraction, some fault)
      | .ok extraction => addSegments table comment (rank + 1) extraction segments

/--
Read one comment.  The answer is the number of its segments or the first fault; in both cases the
state holds the marks that the comment contributed.
-/
def addComment
    (table : KeywordTable)
    (extraction : Extraction)
    (comment : Comment) :
    Extraction × Except Fault Nat :=
  let segments := table.segments comment.text.toList
  match addSegments table comment 1 extraction segments with
  | (extraction, none) => (extraction, .ok segments.length)
  | (extraction, some fault) => (extraction, .error fault)

/-- Read comments in the order given, up to the first fault. -/
def addComments
    (table : KeywordTable) :
    Extraction → List Comment → Except Fault Extraction
  | extraction, [] => .ok extraction
  | extraction, comment :: comments =>
      match extraction.addComment table comment with
      | (_, .error fault) => .error fault
      | (extraction, .ok _) => addComments table extraction comments

end Extraction

namespace Transcript

/-- The transcript of a run's comments, read in the order of their keys. -/
def ofComments
    (table : KeywordTable)
    (comments : List Comment) :
    Except Fault Transcript :=
  (Extraction.start.addComments table (Comment.sort comments)).map Extraction.transcript

end Transcript

end Flowmark
