import Mathlib
import Flowmark.Proofs.Markup.Replay
import Flowmark.Proofs.Model.Placement
import Flowmark.Proofs.Skeleton.Lines

namespace Flowmark

open Text Extraction

/-!
# Reading a skeleton back

Under keywords without blanks and quotes, the skeleton of what was read from one-line comments reads
as the same marks at other places.  So it leads to the same model or the same fault, and to the same
skeleton again.
-/

namespace Skeleton

/-- The marks of a line as written, each being a trimmed part that reads as its clause. -/
theorem written_of_writable
    {table : KeywordTable}
    {group : List Mark}
    (writable : ∀ mark ∈ group, IsWritable table mark) :
    ∀ part ∈ group.map (fun mark => mark.text.toList),
      table.IsPart part ∧ trim part = part ∧ '\n' ∉ part := by
  intro part member
  obtain ⟨mark, inGroup, rfl⟩ := List.mem_map.mp member
  obtain ⟨clause, clauseWritable, entry⟩ := writable mark inGroup
  rw [Clause.text_of_entry entry]
  exact ⟨clauseWritable.isPart, clauseWritable.trimmed, clauseWritable.oneLine⟩

/-- The segments of a line are the marks written on it. -/
theorem segments_textOf
    {table : KeywordTable}
    (plain : table.IsPlain)
    {group : List Mark}
    (writable : ∀ mark ∈ group, IsWritable table mark) :
    (table.segments ((textOf group).getD "").toList).map Segment.text =
      group.map fun mark => mark.text.toList := by
  cases isText : textOf group with
  | none =>
      have noMarks : group = [] := by
        by_contra nonempty
        simp [textOf, nonempty] at isText
      subst noMarks
      rfl
  | some text =>
      rw [Option.getD_some, (toList_textOf isText).2]
      apply KeywordTable.segments_intercalate plain
      intro part member
      exact ⟨(written_of_writable writable part member).1,
        (written_of_writable writable part member).2.1⟩

/-- The text of writable marks does not start with a blank. -/
theorem margin_textOf
    {table : KeywordTable}
    {group : List Mark}
    (writable : ∀ mark ∈ group, IsWritable table mark)
    {text : String}
    (isText : textOf group = some text) :
    SkeletonLine.margin text.toList = 0 := by
  obtain ⟨nonempty, written⟩ := toList_textOf isText
  rw [written]
  cases group with
  | nil => exact absurd rfl nonempty
  | cons mark rest =>
      obtain ⟨⟨opening, content, shape, isOpening, _⟩, _, _⟩ :=
        written_of_writable writable mark.text.toList (by simp)
      obtain ⟨after, lineShape⟩ : ∃ after,
          [' '].intercalate ((mark :: rest).map fun mark => mark.text.toList) =
            opening ++ after := by
        cases rest with
        | nil => exact ⟨content, by simpa using shape⟩
        | cons next rest =>
            rw [List.map_cons, List.map_cons, List.intercalate_cons_cons, shape]
            simp only [List.append_assoc]
            exact ⟨_, rfl⟩
      rw [lineShape]
      cases opening with
      | nil => exact absurd rfl isOpening.nonempty
      | cons c opening =>
          have notSpace : c ≠ ' ' := by
            rintro rfl
            exact absurd (isOpening.solid ' ' (by simp)) (by decide)
          simp [SkeletonLine.margin, notSpace]

/-- The comments of the skeleton of writable marks are written as the marks of its lines. -/
theorem segments_comments
    {table : KeywordTable}
    (plain : table.IsPlain)
    {statements : List Statement}
    (writable : ∀ mark ∈ statements.flatMap Statement.marks, IsWritable table mark)
    {delimiter : String}
    (delimiterNoFeed : '\n' ∉ delimiter.toList)
    (first : Nat) :
    (comments delimiter first
        (String.join ((lines 0 statements).map fun line => line.render delimiter ++ "\n"))).map
        (fun comment => (table.segments comment.text.toList).map Segment.text) =
      (groups statements ++ [[]]).map fun group : List Mark =>
        group.map fun mark : Mark => mark.text.toList := by
  have lineTexts := map_text_lines 0 statements
  have groupWritable : ∀ group ∈ groups statements, ∀ mark ∈ group, IsWritable table mark := by
    intro group inGroups mark inGroup
    apply writable
    rw [← flatten_groups]
    exact List.mem_flatten.mpr ⟨group, inGroups, inGroup⟩
  have marksOneLine : ∀ mark ∈ statements.flatMap Statement.marks, '\n' ∉ mark.text.toList := by
    intro mark isMark
    have parts := written_of_writable (List.forall_mem_singleton.mpr (writable mark isMark))
    exact (parts _ List.mem_cons_self).2.2
  have texts := texts_comments delimiterNoFeed
    (fun line (inLines : line ∈ lines 0 statements) text isText => by
      obtain ⟨group, inGroups, isGroupText⟩ := exists_group_of_mem_lines inLines isText
      exact margin_textOf (groupWritable group inGroups) isGroupText)
    (fun line inLines text isText => oneLine_of_mem_lines marksOneLine inLines isText)
    first
  have linesAsGroups :
      (lines 0 statements).map (fun line => (line.text.getD "").toList) =
        (groups statements).map fun group => ((textOf group).getD "").toList := by
    have mapped := congrArg (List.map fun text : Option String => (text.getD "").toList) lineTexts
    rw [List.map_map, List.map_map] at mapped
    exact mapped
  rw [linesAsGroups] at texts
  have segmentTexts := congrArg
    (List.map fun text => (table.segments text).map Segment.text) texts
  simp only [List.map_map, List.map_append, List.map_singleton] at segmentTexts ⊢
  refine segmentTexts.trans (congrArg₂ (· ++ ·) ?_ rfl)
  apply List.map_congr_left
  intro group inGroups
  exact segments_textOf plain (groupWritable group inGroups)

end Skeleton

namespace Transcript

/--
Under keywords without blanks and quotes, the comments of a skeleton read as the same marks at other
places, where the comments from which it was made have one line each.  They lead to the same model
or to the same fault but for its places, and to the same skeleton.
-/
theorem skeleton_readsBack
    {table : KeywordTable}
    (plain : table.IsPlain)
    {comments : List Comment}
    (oneLine : ∀ comment ∈ comments, '\n' ∉ comment.text.toList)
    {delimiter : String}
    (delimiterOneLine : '\n' ∉ delimiter.toList)
    {transcript : Transcript}
    (extracted : ofComments table comments = .ok transcript)
    (first : Nat) :
    ∃ again,
      ofComments table (Skeleton.comments delimiter first (transcript.skeleton delimiter)) =
          .ok again ∧
        again.marks.map Mark.unplaced = transcript.marks.map Mark.unplaced ∧
        (∀ workflow,
          (Model.ofTranscript workflow again).mapError Fault.unplaced =
            (Model.ofTranscript workflow transcript).mapError Fault.unplaced) ∧
        again.skeleton delimiter = transcript.skeleton delimiter := by
  have attached := attached_of_ofComments extracted
  have writable := isWritable_of_ofComments plain oneLine extracted
  have inStatements := flatMap_marks_statements attached
  have allGroups :
      (Skeleton.groups transcript.statements ++ [[]]).flatten = transcript.marks := by
    rw [List.flatten_append, Skeleton.flatten_groups, inStatements]
    simp
  obtain ⟨final, added, sameMarks⟩ :
      ∃ final,
        start.addComments table
            (Skeleton.comments delimiter first (transcript.skeleton delimiter)) = .ok final ∧
          final.transcript.marks.map Mark.unplaced = transcript.marks.map Mark.unplaced := by
    have replayed := @addComments_of_marks table _ _
      (Skeleton.segments_comments plain (by rw [inStatements]; exact writable)
        delimiterOneLine first) start
    rw [allGroups] at replayed
    exact replayed writable attached transcript.numbered
  refine ⟨final.transcript, ?_, sameMarks, ?_, ?_⟩
  · rw [ofComments, Skeleton.sort_comments, added]
    rfl
  · exact fun workflow => Model.ofTranscript_eq_of_unplaced sameMarks workflow
  · exact skeleton_eq_of_unplaced sameMarks delimiter

set_option maxRecDepth 4000 in
/-- A comment with quotes and blanks is read back from its skeleton. -/
theorem skeleton_readsBack_quoted :
    ∃ transcript again,
      ofComments .standard
          [.onLine 1 "@begin a  @in x@as \"b  c\"d", .onLine 2 "@end\ta"] = .ok transcript ∧
        transcript.marks.map Mark.text = ["@begin a", "@in x", "@as \"b  c\" d", "@end a"] ∧
        ofComments .standard (Skeleton.comments "#" 1 (transcript.skeleton "#")) = .ok again ∧
        again.marks.map Mark.unplaced = transcript.marks.map Mark.unplaced := by
  have texts :
      (ofComments .standard
          [.onLine 1 "@begin a  @in x@as \"b  c\"d", .onLine 2 "@end\ta"]).map
          (fun transcript => transcript.marks.map Mark.text) =
        .ok ["@begin a", "@in x", "@as \"b  c\" d", "@end a"] := by cbv
  cases extracted :
      ofComments .standard [.onLine 1 "@begin a  @in x@as \"b  c\"d", .onLine 2 "@end\ta"] with
  | error fault =>
      rw [extracted] at texts
      cases texts
  | ok transcript =>
      rw [extracted] at texts
      obtain ⟨again, readAgain, sameMarks, _, _⟩ :=
        skeleton_readsBack (by decide) (by decide) (by decide : '\n' ∉ "#".toList)
          extracted 1
      exact ⟨transcript, again, rfl, Except.ok.inj texts, readAgain, sameMarks⟩

end Transcript

end Flowmark
