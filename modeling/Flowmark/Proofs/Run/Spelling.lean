import Mathlib
import Flowmark.Proofs.Markup.Spelling
import Flowmark.Proofs.Model.Placement
import Flowmark.Run

namespace Flowmark

/-!
# The spelling of keywords

Keywords may be written in any case.  Where comments are respelled, segments are found at the same
bytes, and a run gives the same marks but for the case of their keywords, and the same model; or it
gives the same fault but for the case of a token that is no keyword.
-/

/-- A fault that is not moved stays the same. -/
theorem Fault.relocate_id
    (fault : Fault) :
    fault.relocate id = fault := by
  rcases fault with ⟨location, cause⟩
  cases cause <;> rfl

/-- Neither a model nor the faults in building it depend on how keywords are spelled. -/
theorem Model.ofTranscript_eq_of_foldKeyword
    {first second : Transcript}
    (same : first.marks.map Mark.foldKeyword = second.marks.map Mark.foldKeyword)
    (workflow : Option String) :
    ofTranscript workflow first = ofTranscript workflow second := by
  have moves : ∀ mark : Mark, mark.foldKeyword.location = id mark.location := fun _ => rfl
  have sameOutcome := ofTranscript_eq_of_map Mark.preserves_foldKeyword moves same workflow
  have unmoved : ∀ outcome : Except Fault Model,
      outcome.mapError (Fault.relocate id) = outcome := by
    intro outcome
    cases outcome with
    | error fault => exact congrArg Except.error fault.relocate_id
    | ok model => rfl
  rwa [unmoved, unmoved] at sameOutcome

namespace Run

/-- Outcomes that differ at most in the case of keywords, or of the token that is none. -/
inductive SpelledAlike : Except Fault Run → Except Fault Run → Prop where
  | ok
      {run run' : Run}
      (marks :
        run.transcript.marks.map Mark.foldKeyword = run'.transcript.marks.map Mark.foldKeyword)
      (model : run.model = run'.model) :
      SpelledAlike (.ok run) (.ok run')
  | error
      {fault fault' : Fault}
      (sameButToken : fault.foldToken = fault'.foldToken) :
      SpelledAlike (.error fault) (.error fault')

variable {settings : Settings} {comments comments' : List Comment}

/-- Runs over respelled comments differ at most in the case of keywords. -/
theorem spelledAlike_of_respelled
    (respelled : List.Forall₂ (Comment.Respells settings.keywordTable) comments comments') :
    SpelledAlike (ofComments settings comments) (ofComments settings comments') := by
  have sameOutcome := Transcript.ofComments_eq_of_respells respelled
  unfold ofComments
  generalize Transcript.ofComments settings.keywordTable comments = outcome at *
  generalize Transcript.ofComments settings.keywordTable comments' = outcome' at *
  cases outcome with
  | error fault =>
      cases outcome' with
      | error fault' => exact .error (Except.error.inj sameOutcome)
      | ok transcript' => cases sameOutcome
  | ok transcript =>
      cases outcome' with
      | error fault' => cases sameOutcome
      | ok transcript' =>
          have sameMarks := congrArg Transcript.marks (Except.ok.inj sameOutcome)
          simp only [Model.ofTranscript_eq_of_foldKeyword sameMarks settings.workflow]
          cases Model.ofTranscript settings.workflow transcript' with
          | error fault => exact .error rfl
          | ok model => exact .ok sameMarks rfl

/--
Where comments are respelled, their segments are found at the same bytes, and the outcomes of the
runs differ at most in the case of keywords, or of the token that is none.
-/
theorem ofComments_respelled
    (respelled : List.Forall₂ (Comment.Respells settings.keywordTable) comments comments') :
    List.Forall₂
        (fun comment comment' =>
          (settings.keywordTable.segments comment.text.toList).map Segment.range =
            (settings.keywordTable.segments comment'.text.toList).map Segment.range)
        comments comments' ∧
      SpelledAlike (ofComments settings comments) (ofComments settings comments') :=
  ⟨respelled.imp fun _ _ respells => respells.text.sameRanges, spelledAlike_of_respelled respelled⟩

set_option maxRecDepth 4000 in
/-- Keywords in mixed case, one of them registered with a letter outside ASCII. -/
theorem ofComments_respelled_mixed :
    ∃ settings comments comments',
      List.Forall₂ (Comment.Respells settings.keywordTable) comments comments' ∧
        comments ≠ comments' ∧
        List.Forall₂
          (fun comment comment' =>
            (settings.keywordTable.segments comment.text.toList).map Segment.range =
              (settings.keywordTable.segments comment'.text.toList).map Segment.range)
          comments comments' ∧
        SpelledAlike (ofComments settings comments) (ofComments settings comments') ∧
        (ofComments settings comments').map
            (fun run => run.transcript.marks.map fun mark => (mark.keyword, mark.name)) =
          .ok [("@BEGIN", "a"), ("@Entrée", "X"), ("@aS", "y"), ("@end", "a")] := by
  let settings := Settings.standard.addKeyword "@ENTRée" .input
  let comments : List Comment :=
    [.onLine 1 "@begin a", .onLine 2 "see @entrée X @as y", .onLine 3 "@end a"]
  let comments' : List Comment :=
    [.onLine 1 "@BEGIN a", .onLine 2 "see @Entrée X @aS y", .onLine 3 "@end a"]
  have respelled : List.Forall₂ (Comment.Respells settings.keywordTable) comments comments' :=
    .cons (by decide) (.cons (by decide) (.cons (by decide) .nil))
  obtain ⟨sameRanges, alike⟩ := ofComments_respelled respelled
  refine ⟨settings, comments, comments', respelled, by decide, sameRanges, alike, ?_⟩
  cbv

end Run

end Flowmark
