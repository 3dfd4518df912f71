import Flowmark.Markup.Extraction
import Flowmark.Proofs.Markup.Clause

namespace Flowmark

open Text

/-!
# Marks of an extraction

Each qualifier of an extraction is attached to the nearest primary before it, and every mark is
written so that it reads as the clause that it came from.  Both are kept by every segment that is
read, and so they hold after every run over comments.
-/

namespace Mark

/-- The number of the latest primary after marks, given the one before them. -/
def latestFrom
    (latest : Option MarkId) :
    List Mark → Option MarkId
  | [] => latest
  | mark :: rest => latestFrom (if mark.isQualifier then latest else some mark.id) rest

/--
Whether each qualifier is attached to the nearest primary before it, and no other mark is attached,
given the latest primary before the marks.
-/
def AttachedFrom
    (latest : Option MarkId) :
    List Mark → Prop
  | [] => True
  | mark :: rest =>
      if mark.isQualifier then
        latest ≠ none ∧ mark.qualifies = latest ∧ AttachedFrom latest rest
      else
        mark.qualifies = none ∧ AttachedFrom (some mark.id) rest

/-- The latest primary of two lists is that of the second behind the first. -/
theorem latestFrom_append
    (latest : Option MarkId)
    (before after : List Mark) :
    latestFrom latest (before ++ after) = latestFrom (latestFrom latest before) after := by
  induction before generalizing latest with
  | nil => rfl
  | cons mark before inductionHypothesis => exact inductionHypothesis _

/-- Two lists are attached where the second is attached behind the latest primary of the first. -/
theorem attachedFrom_append
    {latest : Option MarkId}
    {before after : List Mark} :
    AttachedFrom latest (before ++ after) ↔
      AttachedFrom latest before ∧ AttachedFrom (latestFrom latest before) after := by
  induction before generalizing latest with
  | nil => simp [AttachedFrom, latestFrom]
  | cons mark before inductionHypothesis =>
      cases kind : mark.isQualifier <;>
        simp [AttachedFrom, latestFrom, kind, inductionHypothesis, and_assoc]

end Mark

namespace Extraction

/-! ## One segment -/

/-- What adding a clause does: one mark more, attached and remembered by its tag. -/
theorem shape_of_addClause
    {extraction next : Extraction}
    {location : Location}
    {clause : Clause}
    (added : extraction.addClause location clause = .ok next) :
    ∃ mark : Mark,
      next.transcript.marks = extraction.transcript.marks ++ [mark] ∧
        mark.id = extraction.transcript.nextId ∧
        mark.toEntry = clause.entry location mark.qualifies ∧
        next.latestPrimary = Mark.latestFrom extraction.latestPrimary [mark] ∧
        Mark.AttachedFrom extraction.latestPrimary [mark] := by
  unfold addClause at added
  cases kind : clause.tag.isQualifier with
  | true =>
      cases latest : extraction.latestPrimary with
      | none => simp [kind, latest] at added
      | some primary =>
          simp only [kind, latest, if_true, Except.ok.injEq] at added
          subst added
          refine ⟨_, rfl, rfl, rfl, ?_, ?_⟩
          · simp [Mark.latestFrom, Mark.isQualifier, Clause.entry, kind]
          · simp [Mark.AttachedFrom, Mark.isQualifier, Clause.entry, kind]
  | false =>
      simp only [kind, Bool.false_eq_true, if_false, Except.ok.injEq] at added
      subst added
      refine ⟨_, rfl, rfl, rfl, ?_, ?_⟩
      · simp [Mark.latestFrom, Mark.isQualifier, Clause.entry, kind]
      · simp [Mark.AttachedFrom, Mark.isQualifier, Clause.entry, kind]

/-- A clause is added unless it is a qualifier without a primary before it. -/
theorem addClause_of_latest
    {extraction : Extraction}
    {clause : Clause}
    (attachable : clause.tag.isQualifier = true → extraction.latestPrimary ≠ none)
    (location : Location) :
    ∃ next, extraction.addClause location clause = .ok next := by
  unfold addClause
  cases kind : clause.tag.isQualifier with
  | true =>
      cases latest : extraction.latestPrimary with
      | none => exact absurd latest (attachable kind)
      | some primary => simp
  | false => simp

/-- A segment that is added reads as a clause that is added. -/
theorem shape_of_addSegment
    {table : KeywordTable}
    {extraction next : Extraction}
    {location : Location}
    {segment : Segment}
    (added : extraction.addSegment table location segment = .ok next) :
    ∃ clause,
      Clause.read table segment.text = .ok clause ∧
        extraction.addClause location clause = .ok next := by
  unfold addSegment at added
  split at added
  · cases added
  · rename_i clause readsAs
    exact ⟨clause, readsAs, added⟩

/-- Adding a segment is adding the clause that it reads as. -/
theorem addSegment_of_read
    {table : KeywordTable}
    {segment : Segment}
    {clause : Clause}
    (readsAs : Clause.read table segment.text = .ok clause)
    (extraction : Extraction)
    (location : Location) :
    extraction.addSegment table location segment = extraction.addClause location clause := by
  simp [addSegment, readsAs]

/-! ## Runs -/

/-- What every segment of a comment keeps holds after the comment if it held before. -/
theorem addSegments_keeps
    {table : KeywordTable}
    {comment : Comment}
    {keeps : Extraction → Prop}
    {segments : List Segment}
    (step : ∀ extraction next location segment,
      segment ∈ segments →
        keeps extraction →
        extraction.addSegment table location segment = .ok next →
        keeps next)
    {rank : Nat}
    {extraction next : Extraction}
    {fault : Option Fault}
    (holds : keeps extraction)
    (added : addSegments table comment rank extraction segments = (next, fault)) :
    keeps next := by
  induction segments generalizing rank extraction with
  | nil =>
      cases added
      exact holds
  | cons segment segments inductionHypothesis =>
      unfold addSegments at added
      split at added
      · cases added
        exact holds
      · rename_i following addedFirst
        have holdsNext := step _ _ _ segment (by simp) holds addedFirst
        exact inductionHypothesis
          (fun _ _ _ _ member => step _ _ _ _ (List.mem_cons_of_mem _ member))
          holdsNext added

/-- What every segment of all comments keeps holds after a successful run over the comments. -/
theorem addComments_keeps
    {table : KeywordTable}
    {keeps : Extraction → Prop}
    {comments : List Comment}
    (step : ∀ comment ∈ comments, ∀ extraction next location segment,
      segment ∈ table.segments comment.text.toList →
        keeps extraction →
        extraction.addSegment table location segment = .ok next →
        keeps next)
    {extraction final : Extraction}
    (holds : keeps extraction)
    (added : extraction.addComments table comments = .ok final) :
    keeps final := by
  induction comments generalizing extraction with
  | nil =>
      cases added
      exact holds
  | cons comment comments inductionHypothesis =>
      unfold addComments at added
      split at added
      · cases added
      · rename_i next count addedComment
        have holdsNext : keeps next := by
          unfold addComment at addedComment
          dsimp only at addedComment
          split at addedComment
          · rename_i added
            cases addedComment
            exact addSegments_keeps (step comment (by simp)) holds added
          · cases addedComment
        exact inductionHypothesis
          (fun other member => step other (List.mem_cons_of_mem _ member))
          holdsNext added

/-- Every mark is attached as it must be, and the latest primary is remembered. -/
structure IsAttached
    (extraction : Extraction) :
    Prop where
  attached : Mark.AttachedFrom none extraction.transcript.marks
  latest : extraction.latestPrimary = Mark.latestFrom none extraction.transcript.marks

/-- Before any segment there is no mark to attach. -/
theorem isAttached_start :
    start.IsAttached where
  attached := trivial
  latest := rfl

/-- A segment that is added leaves all marks attached. -/
theorem IsAttached.addSegment
    {table : KeywordTable}
    {extraction next : Extraction}
    (holds : extraction.IsAttached)
    {location : Location}
    {segment : Segment}
    (added : extraction.addSegment table location segment = .ok next) :
    next.IsAttached := by
  obtain ⟨clause, _, addedClause⟩ := shape_of_addSegment added
  obtain ⟨mark, marks, _, _, latest, attached⟩ := shape_of_addClause addedClause
  rw [holds.latest] at latest attached
  exact {
    attached := by
      rw [marks]
      exact Mark.attachedFrom_append.mpr ⟨holds.attached, attached⟩
    latest := by rw [marks, Mark.latestFrom_append, latest] }

/-- The marks of a transcript read from comments are attached to the nearest primaries. -/
theorem attached_of_ofComments
    {table : KeywordTable}
    {comments : List Comment}
    {transcript : Transcript}
    (extracted : Transcript.ofComments table comments = .ok transcript) :
    Mark.AttachedFrom none transcript.marks := by
  unfold Transcript.ofComments at extracted
  cases added : start.addComments table (Comment.sort comments) with
  | error fault => simp [added, Except.map] at extracted
  | ok final =>
      simp only [added, Except.map, Except.ok.injEq] at extracted
      subst extracted
      have holds : final.IsAttached :=
        addComments_keeps (fun _ _ _ _ _ _ _ holds added => holds.addSegment added)
          isAttached_start added
      exact holds.attached

/-! ## Writable marks -/

/-- The mark is that of a clause which reads back from what is written. -/
def IsWritable
    (table : KeywordTable)
    (mark : Mark) :
    Prop :=
  ∃ clause : Clause,
    clause.IsWritable table ∧ mark.toEntry = clause.entry mark.location mark.qualifies

/-- Every mark read so far reads back from what is written. -/
def AreWritable
    (table : KeywordTable)
    (extraction : Extraction) :
    Prop :=
  ∀ mark ∈ extraction.transcript.marks, IsWritable table mark

/-- A segment of one line that is added leaves all marks writable. -/
theorem areWritable_of_addSegment
    {table : KeywordTable}
    (plain : table.IsPlain)
    {text : List Char}
    (noFeed : '\n' ∉ text)
    {extraction next : Extraction}
    {location : Location}
    {segment : Segment}
    (member : segment ∈ table.segments text)
    (holds : extraction.AreWritable table)
    (added : extraction.addSegment table location segment = .ok next) :
    next.AreWritable table := by
  obtain ⟨clause, readsAs, addedClause⟩ := shape_of_addSegment added
  obtain ⟨mark, marks, _, entry, _, _⟩ := shape_of_addClause addedClause
  obtain ⟨part, inDivision, trimmed⟩ :
      ∃ part ∈ (table.divide text).parts, trim part = segment.text := by
    have inTexts := List.mem_map_of_mem (f := Segment.text) member
    rw [KeywordTable.map_text_segments] at inTexts
    exact List.mem_map.mp inTexts
  have partNoFeed : '\n' ∉ part := by
    intro inPart
    apply noFeed
    rw [← table.text_divide text]
    exact List.mem_append_right _ (List.mem_flatten.mpr ⟨part, inDivision, inPart⟩)
  rw [← trimmed] at readsAs
  have writable := Clause.isWritable_of_read plain
    (KeywordTable.isPart_of_mem_divide plain inDivision) partNoFeed readsAs
  intro other otherMember
  rw [marks] at otherMember
  rcases List.mem_append.mp otherMember with old | new
  · exact holds other old
  · rw [List.mem_singleton.mp new]
    have sameLocation : mark.location = location := congrArg Entry.location entry
    exact ⟨clause, writable, by rw [sameLocation]; exact entry⟩

/-- Comments of one line each have marks that read back from what is written. -/
theorem isWritable_of_ofComments
    {table : KeywordTable}
    (plain : table.IsPlain)
    {comments : List Comment}
    (noFeeds : ∀ comment ∈ comments, '\n' ∉ comment.text.toList)
    {transcript : Transcript}
    (extracted : Transcript.ofComments table comments = .ok transcript) :
    ∀ mark ∈ transcript.marks, IsWritable table mark := by
  unfold Transcript.ofComments at extracted
  cases added : start.addComments table (Comment.sort comments) with
  | error fault => simp [added, Except.map] at extracted
  | ok final =>
      simp only [added, Except.map, Except.ok.injEq] at extracted
      subst extracted
      have holds : start.AreWritable table := by simp [AreWritable, start, Transcript.empty]
      refine addComments_keeps ?_ holds added
      intro comment inSorted extraction next location segment member holds added
      have inComments : comment ∈ comments :=
        (OrderKey.sortBy_perm Comment.key comments).mem_iff.mp inSorted
      exact areWritable_of_addSegment plain (noFeeds comment inComments) member holds added

end Extraction

end Flowmark
