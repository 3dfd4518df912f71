import Flowmark.Proofs.Markup.Attachment
import Flowmark.Proofs.Markup.Placement

namespace Flowmark

open Text

/-!
# Reading marks again

The marks of an extraction, written on lines, are read again in order.  All that may change is the
places of the marks, since a qualifier finds the same primary before it.
-/

namespace Extraction

/-- A segment that is written as a mark adds that mark at another place. -/
theorem addSegment_of_mark
    {table : KeywordTable}
    {extraction : Extraction}
    {segment : Segment}
    {mark : Mark}
    (text : segment.text = mark.text.toList)
    (writable : IsWritable table mark)
    (attached : Mark.AttachedFrom extraction.latestPrimary [mark])
    (numbered : mark.id = extraction.transcript.nextId)
    (location : Location) :
    ∃ next added,
      extraction.addSegment table location segment = .ok next ∧
        next.transcript.marks = extraction.transcript.marks ++ [added] ∧
        added.unplaced = mark.unplaced ∧
        next.latestPrimary = Mark.latestFrom extraction.latestPrimary [mark] := by
  obtain ⟨clause, clauseWritable, entry⟩ := writable
  have sameTag : mark.tag = clause.tag := congrArg Entry.tag entry
  have readsAs : Clause.read table segment.text = .ok clause := by
    rw [text, Clause.text_of_entry entry]
    exact clauseWritable.readsBack
  have attachable : clause.tag.isQualifier = true → extraction.latestPrimary ≠ none := by
    intro isQualifier
    rw [← sameTag] at isQualifier
    simp only [Mark.AttachedFrom, Mark.isQualifier, isQualifier, if_true] at attached
    exact attached.1
  obtain ⟨next, addedClause⟩ := addClause_of_latest attachable location
  obtain ⟨added, marks, number, addedEntry, latest, addedAttached⟩ :=
    shape_of_addClause addedClause
  have sameKind : added.isQualifier = mark.isQualifier := by
    have addedTag : added.tag = clause.tag := congrArg Entry.tag addedEntry
    rw [Mark.isQualifier, Mark.isQualifier, addedTag, sameTag]
  have sameNumber : added.id = mark.id := number.trans numbered.symm
  have sameTarget : added.qualifies = mark.qualifies := by
    simp only [Mark.AttachedFrom, sameKind] at attached addedAttached
    split at attached
    · rename_i isQualifier
      rw [if_pos isQualifier] at addedAttached
      rw [attached.2.1, addedAttached.2.1]
    · rename_i isPrimary
      rw [if_neg isPrimary] at addedAttached
      rw [attached.1, addedAttached.1]
  refine ⟨next, added, ?_, marks, ?_, ?_⟩
  · rw [addSegment_of_read readsAs]
    exact addedClause
  · rw [sameTarget] at addedEntry
    unfold Mark.unplaced
    rw [addedEntry, entry, sameNumber]
    rfl
  · rw [latest]
    simp only [Mark.latestFrom, sameKind, sameNumber]

/-- Segments that are written as marks add those marks at other places. -/
theorem addSegments_of_marks
    {table : KeywordTable}
    {comment : Comment}
    {rank : Nat}
    {extraction : Extraction}
    {segments : List Segment}
    {marks : List Mark}
    (texts : segments.map Segment.text = marks.map fun mark => mark.text.toList)
    (writable : ∀ mark ∈ marks, IsWritable table mark)
    (attached : Mark.AttachedFrom extraction.latestPrimary marks)
    (numbered : marks.map Mark.id = List.range' extraction.transcript.nextId marks.length) :
    ∃ next,
      addSegments table comment rank extraction segments = (next, none) ∧
        next.transcript.marks.map Mark.unplaced =
          extraction.transcript.marks.map Mark.unplaced ++ marks.map Mark.unplaced ∧
        next.latestPrimary = Mark.latestFrom extraction.latestPrimary marks := by
  induction marks generalizing segments extraction rank with
  | nil =>
      have noSegments : segments = [] := List.map_eq_nil_iff.mp texts
      subst noSegments
      exact ⟨extraction, rfl, by simp, rfl⟩
  | cons mark marks inductionHypothesis =>
      obtain ⟨segment, rest, rfl, text, restTexts⟩ := List.map_eq_cons_iff.mp texts
      simp only [List.map_cons, List.length_cons, List.range'_succ, List.cons.injEq] at numbered
      obtain ⟨first, attachedRest⟩ :
          Mark.AttachedFrom extraction.latestPrimary [mark] ∧
            Mark.AttachedFrom (Mark.latestFrom extraction.latestPrimary [mark]) marks := by
        rw [← Mark.attachedFrom_append]
        exact attached
      obtain ⟨next, added, addedSegment, nextMarks, sameMark, latest⟩ :=
        addSegment_of_mark text (writable mark (by simp)) first numbered.1
          (segmentLocation comment rank)
      have nextNumber : next.transcript.nextId = extraction.transcript.nextId + 1 := by
        simp [Transcript.nextId, Transcript.size, nextMarks]
      rw [← latest] at attachedRest
      rw [← nextNumber] at numbered
      obtain ⟨final, addedRest, finalMarks, finalLatest⟩ :=
        @inductionHypothesis (rank + 1) next rest restTexts
          (fun other member => writable other (List.mem_cons_of_mem _ member))
          attachedRest numbered.2
      refine ⟨final, ?_, ?_, ?_⟩
      · rw [addSegments, addedSegment]
        exact addedRest
      · rw [finalMarks, nextMarks]
        simp [sameMark]
      · rw [finalLatest, latest]
        rfl

/-- Comments that are written as groups of marks add those marks at other places. -/
theorem addComments_of_marks
    {table : KeywordTable}
    {comments : List Comment}
    {groups : List (List Mark)}
    (texts :
      comments.map (fun comment =>
          (table.segments comment.text.toList).map Segment.text) =
        groups.map fun group => group.map fun mark => mark.text.toList)
    {extraction : Extraction}
    (writable : ∀ mark ∈ groups.flatten, IsWritable table mark)
    (attached : Mark.AttachedFrom extraction.latestPrimary groups.flatten)
    (numbered :
      groups.flatten.map Mark.id =
        List.range' extraction.transcript.nextId groups.flatten.length) :
    ∃ next,
      extraction.addComments table comments = .ok next ∧
        next.transcript.marks.map Mark.unplaced =
          extraction.transcript.marks.map Mark.unplaced ++ groups.flatten.map Mark.unplaced := by
  induction groups generalizing comments extraction with
  | nil =>
      have noComments : comments = [] := List.map_eq_nil_iff.mp texts
      subst noComments
      exact ⟨extraction, rfl, by simp⟩
  | cons group groups inductionHypothesis =>
      obtain ⟨comment, rest, rfl, text, restTexts⟩ := List.map_eq_cons_iff.mp texts
      simp only [List.flatten_cons, List.forall_mem_append] at writable
      rw [List.flatten_cons, Mark.attachedFrom_append] at attached
      simp only [List.flatten_cons, List.map_append, List.length_append] at numbered
      rw [← List.range'_append_1] at numbered
      obtain ⟨groupNumbered, restNumbered⟩ := List.append_inj numbered (by simp)
      obtain ⟨next, added, nextMarks, latest⟩ :=
        @addSegments_of_marks table comment 1 extraction _ group text writable.1 attached.1
          groupNumbered
      have nextNumber : next.transcript.nextId = extraction.transcript.nextId + group.length := by
        have sameLength := congrArg List.length nextMarks
        simp only [List.length_map, List.length_append] at sameLength
        simp only [Transcript.nextId, Transcript.size, sameLength]
        exact Nat.add_right_comm _ _ _
      rw [← nextNumber] at restNumbered
      rw [← latest] at attached
      obtain ⟨final, addedRest, finalMarks⟩ :=
        inductionHypothesis restTexts writable.2 attached.2 restNumbered
      refine ⟨final, ?_, ?_⟩
      · rw [addComments, addComment]
        simp only [added]
        exact addedRest
      · rw [finalMarks, nextMarks]
        simp

end Extraction

namespace Transcript

/--
From any place of a transcript on, the qualifiers of the latest primary come first, and then each
primary with its own.
-/
theorem flatMap_attached_of_append
    {transcript : Transcript}
    {latest : Option MarkId}
    {before rest : List Mark}
    (shape : transcript.marks = before ++ rest)
    (attached : Mark.AttachedFrom latest rest) :
    (latest.elim [] fun id => rest.takeWhile (·.qualifies = some id)) ++
        (rest.filter Mark.isPrimary).flatMap
          (fun primary => primary :: transcript.attached primary.id) = rest := by
  -- The qualifiers of the latest primary come first, and every later primary brings its own.
  induction rest generalizing latest before with
  | nil => cases latest <;> rfl
  | cons mark rest inductionHypothesis =>
      have nextShape : transcript.marks = (before ++ [mark]) ++ rest := by simp [shape]
      rw [Mark.AttachedFrom] at attached
      cases kind : mark.isQualifier with
      | true =>
          rw [if_pos kind] at attached
          obtain ⟨present, target, attachedRest⟩ := attached
          cases latest with
          | none => exact absurd rfl present
          | some id =>
              have notPrimary : mark.isPrimary = false := by
                simpa [Mark.isPrimary, Tag.isPrimary, Mark.isQualifier] using kind
              have restHolds := inductionHypothesis nextShape attachedRest
              simpa [target, notPrimary] using restHolds
      | false =>
          rw [if_neg (by simp [kind])] at attached
          obtain ⟨target, attachedRest⟩ := attached
          have isPrimary : mark.isPrimary = true := by
            simpa [Mark.isPrimary, Tag.isPrimary, Mark.isQualifier] using kind
          have number : mark.id = before.length + 1 :=
            transcript.id_of_getElem? (by simp [shape])
          have followers :
              transcript.attached mark.id = rest.takeWhile (·.qualifies = some mark.id) := by
            have behind :
                transcript.attached (before.length + 1) =
                  (transcript.marks.drop (before.length + 1)).takeWhile
                    (·.qualifies = some (before.length + 1)) := rfl
            rw [number, behind, nextShape, List.drop_left' (by simp)]
          have restHolds := inductionHypothesis nextShape attachedRest
          have noneBefore :
              (latest.elim [] fun id =>
                (mark :: rest).takeWhile (·.qualifies = some id)) = [] := by
            cases latest <;> simp [target]
          rw [noneBefore, List.filter_cons_of_pos isPrimary, List.flatMap_cons, followers,
            List.nil_append, List.cons_append]
          exact congrArg (List.cons mark) restHolds

/-- The statements of a transcript hold its marks in order, where all qualifiers are attached. -/
theorem flatMap_marks_statements
    {transcript : Transcript}
    (attached : Mark.AttachedFrom none transcript.marks) :
    transcript.statements.flatMap Statement.marks = transcript.marks := by
  have whole : transcript.marks = [] ++ transcript.marks := rfl
  rw [statements, List.flatMap_map]
  exact flatMap_attached_of_append whole attached

end Transcript

end Flowmark
