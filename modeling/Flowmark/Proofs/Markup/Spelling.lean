import Flowmark.Proofs.Comment.Order
import Flowmark.Proofs.Markup.Placement
import Flowmark.Proofs.Markup.Sequence
import Flowmark.Proofs.Outline.Relabeling
import Flowmark.Proofs.Segment.Spelling

namespace Flowmark

open Text

/-!
# Markup without the spelling of its keywords

Reading a segment with its first word in lower case gives the mark with its keyword in lower case,
or the fault with its token in lower case.  So the case of first words reaches the keywords of marks
and the tokens of faults only.
-/

/-! ## Keywords in lower case -/

/-- A text in lower case. -/
def Text.foldString
    (text : String) :
    String :=
  String.ofList (foldCase text.toList)

/-- An entry with its keyword in lower case. -/
def Entry.foldKeyword
    (entry : Entry) :
    Entry :=
  { entry with keyword := foldString entry.keyword }

/-- A mark with its keyword in lower case. -/
def Mark.foldKeyword
    (mark : Mark) :
    Mark :=
  { mark with toEntry := mark.toEntry.foldKeyword }

/-- Lower case of keywords keeps what marks say and how they are related. -/
theorem Mark.preserves_foldKeyword :
    Preserves foldKeyword where
  tag := fun _ => rfl
  name := fun _ => rfl
  description := fun _ => rfl
  nameKind := fun _ => rfl
  id := fun _ => rfl
  qualifies := fun _ => rfl

/-- A clause with its keyword in lower case. -/
def Clause.foldKeyword
    (clause : Clause) :
    Clause :=
  { clause with keyword := foldCase clause.keyword }

/-- A transcript with its keywords in lower case. -/
def Transcript.foldKeywords
    (transcript : Transcript) :
    Transcript where
  marks := transcript.marks.map Mark.foldKeyword
  numbered := by
    rw [List.map_map, List.length_map]
    exact transcript.numbered

/-- The state of an extraction with its keywords in lower case. -/
def Extraction.foldKeywords
    (extraction : Extraction) :
    Extraction :=
  { extraction with transcript := extraction.transcript.foldKeywords }

namespace Fault

/-- A cause with the token that is no keyword in lower case. -/
def Cause.foldToken : Cause → Cause
  | unknownKeyword token => unknownKeyword (foldString token)
  | cause => cause

/-- A fault with the token that is no keyword in lower case. -/
def foldToken
    (fault : Fault) :
    Fault :=
  { fault with cause := fault.cause.foldToken }

end Fault

/-! ## Reading segments -/

/-- The entry of a clause with its keyword in lower case is the entry in that case. -/
theorem Clause.entry_foldKeyword
    (clause : Clause)
    (location : Location)
    (qualifies : Option MarkId) :
    clause.foldKeyword.entry location qualifies =
      (clause.entry location qualifies).foldKeyword := by
  simp [entry, foldKeyword, Entry.foldKeyword, foldString, description?]

/-- Adding an entry and writing keywords in lower case may change their order. -/
theorem Transcript.push_foldKeywords
    (transcript : Transcript)
    (entry : Entry) :
    transcript.foldKeywords.push entry.foldKeyword = (transcript.push entry).foldKeywords := by
  simp [push, foldKeywords, nextId, size, Mark.foldKeyword, Entry.foldKeyword]

/-- A text with its first word in lower case is read as its clause with a keyword in lower case. -/
theorem Clause.read_foldHead
    (table : KeywordTable)
    (text : List Char) :
    read table (foldHead text) =
      ((read table text).map foldKeyword).mapError Fault.Cause.foldToken := by
  have sameTag :
      table.tag? (foldCase (headWord (trimStart text))) =
        table.tag? (headWord (trimStart text)) := by
    rw [KeywordTable.tag?, foldCase_foldCase, KeywordTable.tag?]
  simp only [read, headWord_foldHead, afterHeadWord_foldHead, sameTag]
  cases table.tag? (headWord (trimStart text)) with
  | none => simp [Except.map, Except.mapError, Fault.Cause.foldToken, foldString]
  | some tag =>
      cases Argument.all (afterHeadWord (trimStart text)) with
      | nil => rfl
      | cons name details => rfl

namespace Extraction

/-- A clause with its keyword in lower case is added as the clause is, up to that case. -/
theorem addClause_foldKeyword
    (extraction : Extraction)
    (location : Location)
    (clause : Clause) :
    extraction.foldKeywords.addClause location clause.foldKeyword =
      ((extraction.addClause location clause).map foldKeywords).mapError Fault.foldToken := by
  have sameId : extraction.foldKeywords.transcript.nextId = extraction.transcript.nextId := by
    simp [foldKeywords, Transcript.foldKeywords, Transcript.nextId, Transcript.size]
  unfold addClause
  rw [show clause.foldKeyword.tag = clause.tag from rfl, sameId]
  cases clause.tag.isQualifier with
  | false =>
      simp only [Clause.entry_foldKeyword, foldKeywords, Transcript.push_foldKeywords]
      rfl
  | true =>
      rw [show extraction.foldKeywords.latestPrimary = extraction.latestPrimary from rfl]
      cases extraction.latestPrimary with
      | none => rfl
      | some primary =>
          simp only [Clause.entry_foldKeyword, foldKeywords, Transcript.push_foldKeywords]
          rfl

/-- A segment with its first word in lower case is added as the segment is, up to that case. -/
theorem addSegment_foldHead
    (table : KeywordTable)
    (extraction : Extraction)
    (location : Location)
    (segment : Segment) :
    extraction.foldKeywords.addSegment table location segment.foldHead =
      ((extraction.addSegment table location segment).map foldKeywords).mapError
        Fault.foldToken := by
  unfold addSegment
  rw [show segment.foldHead.text = foldHead segment.text from rfl, Clause.read_foldHead]
  cases Clause.read table segment.text with
  | error cause => rfl
  | ok clause => exact extraction.addClause_foldKeyword location clause

end Extraction

/-- A placed segment with its first word in lower case. -/
def PlacedSegment.foldHead
    (placed : PlacedSegment) :
    PlacedSegment :=
  { placed with segment := placed.segment.foldHead }

/-- Segments with first words in lower case are read as the state with keywords in lower case. -/
theorem Extraction.read_foldHead
    (table : KeywordTable)
    (extraction : Extraction)
    (segments : List PlacedSegment) :
    extraction.foldKeywords.read table (segments.map PlacedSegment.foldHead) =
      ((extraction.read table segments).map foldKeywords).mapError Fault.foldToken := by
  induction segments generalizing extraction with
  | nil => rfl
  | cons placed segments inductionHypothesis =>
      rw [List.map_cons, read, read,
        show placed.foldHead.location = placed.location from rfl,
        show placed.foldHead.segment = placed.segment.foldHead from rfl, addSegment_foldHead]
      cases extraction.addSegment table placed.location placed.segment with
      | error fault => rfl
      | ok next => exact inductionHypothesis next

/-! ## Respelled comments -/

namespace Comment

/-- The comments stand at one place, and differ at most in the case of first words of segments. -/
structure Respells
    (table : KeywordTable)
    (comment comment' : Comment) :
    Prop where
  samePlace : comment.location = comment'.location
  text : table.Respells comment.text.toList comment'.text.toList

instance decidableRespells
    (table : KeywordTable)
    (comment comment' : Comment) :
    Decidable (Respells table comment comment') :=
  decidable_of_iff
    (comment.location = comment'.location ∧
      table.Respells comment.text.toList comment'.text.toList)
    ⟨fun ⟨samePlace, text⟩ => ⟨samePlace, text⟩,
      fun respells => ⟨respells.samePlace, respells.text⟩⟩

variable {table : KeywordTable} {comment comment' : Comment}

/-- A respelled comment has its place in the order. -/
theorem Respells.key
    (respells : Respells table comment comment') :
    comment.key = comment'.key := by
  have samePlace := respells.samePlace
  simp only [location, Location.mk.injEq, and_true] at samePlace
  obtain ⟨source, line, rank⟩ := samePlace
  rw [Comment.key, Comment.key, source, line, rank]

/-- The segments of a respelled comment differ at most in the case of first words. -/
theorem Respells.placedSegments
    (respells : Respells table comment comment') :
    (comment.placedSegments table).map PlacedSegment.foldHead =
      (comment'.placedSegments table).map PlacedSegment.foldHead := by
  have samePlace := respells.samePlace
  simp only [location, Location.mk.injEq, and_true] at samePlace
  obtain ⟨source, line, rank⟩ := samePlace
  have shape : ∀ (place : Comment) (segments : List Segment),
      (place.placeFrom 1 segments).map PlacedSegment.foldHead =
        place.placeFrom 1 (segments.map Segment.foldHead) := by
    intro place segments
    simp [placeFrom, List.zipIdx_map, PlacedSegment.foldHead]
  rw [Comment.placedSegments, Comment.placedSegments, shape, shape, respells.text.sameButHeads]
  simp only [placeFrom, source, line, rank]

end Comment

namespace KeywordTable

variable (table : KeywordTable)

/-- The segments of respelled comments differ at most in the case of first words. -/
theorem placedSegments_of_respells
    {comments comments' : List Comment}
    (respelled : List.Forall₂ (Comment.Respells table) comments comments') :
    (table.placedSegments comments).map PlacedSegment.foldHead =
      (table.placedSegments comments').map PlacedSegment.foldHead := by
  have areRespelled : List.Forall₂ (Comment.Respells table) (Comment.sort comments)
      (Comment.sort comments') :=
    OrderKey.forall₂_sortBy (fun respells => respells.key) respelled
  unfold placedSegments
  generalize Comment.sort comments = sorted at *
  generalize Comment.sort comments' = sorted' at *
  induction areRespelled with
  | nil => rfl
  | cons respells _ inductionHypothesis =>
      simp only [List.flatMap_cons, List.map_append, respells.placedSegments, inductionHypothesis]

end KeywordTable

/--
Respelled comments give one transcript but for the case of keywords, or one fault but for the case
of its token.
-/
theorem Transcript.ofComments_eq_of_respells
    {table : KeywordTable}
    {comments comments' : List Comment}
    (respelled : List.Forall₂ (Comment.Respells table) comments comments') :
    ((ofComments table comments).map foldKeywords).mapError Fault.foldToken =
      ((ofComments table comments').map foldKeywords).mapError Fault.foldToken := by
  have shape : ∀ comments : List Comment,
      ((ofComments table comments).map foldKeywords).mapError Fault.foldToken =
        (Extraction.start.read table
          ((table.placedSegments comments).map PlacedSegment.foldHead)).map
            Extraction.transcript := by
    intro comments
    have folds := Extraction.read_foldHead table .start (table.placedSegments comments)
    rw [show Extraction.start.foldKeywords = Extraction.start from rfl] at folds
    rw [ofComments_eq_read, folds]
    cases Extraction.start.read table (table.placedSegments comments) <;> rfl
  rw [shape, shape, table.placedSegments_of_respells respelled]

end Flowmark
