import Mathlib
import Flowmark.Model
import Flowmark.Proofs.Markup.Grouping
import Flowmark.Proofs.Markup.Recovery
import Flowmark.Proofs.Skeleton.Lines

namespace Flowmark

open Extraction

/-!
# Statements as a partition

The marks attached to a primary are taken as the run directly behind it.  Where every qualifier is
attached to the nearest primary before it, the run holds all marks that modify the primary, so the
statements part the marks: each qualifier counts for one primary and is written once.
-/

namespace Mark

/-- A qualifier may be replaced by another one of the same primary. -/
theorem AttachedFrom.replace
    {latest : Option MarkId}
    {before after : List Mark}
    {qualifier other : Mark}
    (attached : AttachedFrom latest (before ++ qualifier :: after))
    (wasQualifier : qualifier.isQualifier = true)
    (isQualifier : other.isQualifier = true)
    (sameTarget : other.qualifies = qualifier.qualifies) :
    AttachedFrom latest (before ++ other :: after) := by
  simp only [attachedFrom_append, AttachedFrom, wasQualifier, isQualifier, if_true,
    sameTarget] at attached ⊢
  exact attached

end Mark

/-- The marks of statements around one of the qualifiers of a statement. -/
theorem Statement.flatMap_marks_middle
    (earlier later : List Statement)
    (primary : Mark)
    (front back : List Mark)
    (qualifier : Mark) :
    (earlier ++ ⟨primary, front ++ qualifier :: back⟩ :: later).flatMap marks =
      (earlier.flatMap marks ++ primary :: front) ++
        qualifier :: (back ++ later.flatMap marks) := by
  simp [marks]

namespace Transcript

/--
A qualifier counts for one primary alone.  It stands in one statement, and with another qualifier of
the same primary in its place, only what that statement holds is changed.
-/
inductive QualifiesOne
    (transcript : Transcript)
    (qualifier : Mark) :
    Prop where
  | intro
      {before after front back : List Mark}
      {earlier later : List Statement}
      {primary : Mark}
      (place : transcript.marks = before ++ qualifier :: after)
      (shape : transcript.statements = earlier ++ ⟨primary, front ++ qualifier :: back⟩ :: later)
      (target : qualifier.qualifies = some primary.id)
      (elsewhere : ∀ statement ∈ earlier ++ later, qualifier ∉ statement.marks)
      (alone : ∀ other (changed : Transcript),
        other.isQualifier = true →
          other.qualifies = qualifier.qualifies →
          changed.marks = before ++ other :: after →
          changed.statements = earlier ++ ⟨primary, front ++ other :: back⟩ :: later ∧
            ∀ workflow, Model.ofTranscript workflow changed =
              (Block.ofStatements (earlier ++ ⟨primary, front ++ other :: back⟩ :: later)).map
                (Model.ofBlocks workflow))

/-- The lines of a skeleton hold the marks in order, each mark on one line. -/
inductive IsWrittenOnce
    (transcript : Transcript)
    (delimiter : String) :
    Prop where
  | intro
      {lines : List SkeletonLine}
      {groups : List (List Mark)}
      (written : transcript.skeleton delimiter =
        String.join (lines.map fun line => line.render delimiter ++ "\n"))
      (texts : lines.map SkeletonLine.text = groups.map Skeleton.textOf)
      (parted : groups.flatten = transcript.marks)

/-- The statements part the marks: each primary is taken with all that modify it. -/
structure IsParted
    (transcript : Transcript) :
    Prop where
  distinct : transcript.marks.Nodup
  resolved : transcript.primaryIds.filterMap transcript.statement? = transcript.statements
  parted : transcript.statements.flatMap Statement.marks = transcript.marks
  attached : ∀ id ∈ transcript.primaryIds,
    transcript.attached id = transcript.marks.filter (·.qualifies = some id)
  unattached : ∀ id, id ∉ transcript.primaryIds → transcript.attached id = []
  qualifies : ∀ mark ∈ transcript.marks, mark.isQualifier = true → transcript.QualifiesOne mark
  written : ∀ delimiter, transcript.IsWrittenOnce delimiter

/-- Primaries are resolved with the marks attached to them. -/
theorem filterMap_statement?_primaryIds
    (transcript : Transcript) :
    transcript.primaryIds.filterMap transcript.statement? = transcript.statements := by
  have found : ∀ primary ∈ transcript.primaries,
      transcript.statement? primary.id = some ⟨primary, transcript.attached primary.id⟩ := by
    intro primary isPrimary
    simp [statement?, transcript.get?_id_of_mem (List.mem_filter.mp isPrimary).1]
  rw [primaryIds, List.filterMap_map, statements, ← List.filterMap_eq_map]
  exact List.filterMap_congr found

/-- The qualifiers of a statement are those attached to its number. -/
theorem qualifiers_of_mem_statements
    {transcript : Transcript}
    {statement : Statement}
    (isStatement : statement ∈ transcript.statements) :
    statement.qualifiers = transcript.attached statement.id := by
  obtain ⟨primary, _, rfl⟩ := List.mem_map.mp isStatement
  rfl

/-- The qualifiers of a statement modify its primary. -/
theorem qualifies_of_mem_statement
    {transcript : Transcript}
    {statement : Statement}
    (isStatement : statement ∈ transcript.statements)
    {mark : Mark}
    (isQualifier : mark ∈ statement.qualifiers) :
    mark.qualifies = some statement.id := by
  rw [qualifiers_of_mem_statements isStatement] at isQualifier
  exact (of_mem_attached isQualifier).2

section Attached

variable {transcript : Transcript} (isAttached : Mark.AttachedFrom none transcript.marks)

include isAttached

/-- The primary of a statement modifies nothing. -/
theorem qualifies_primary
    {statement : Statement}
    (isStatement : statement ∈ transcript.statements) :
    statement.primary.qualifies = none := by
  have kind := (formed_statements isAttached statement isStatement).primary
  obtain ⟨primary, isPrimary, rfl⟩ := List.mem_map.mp isStatement
  by_contra target
  have isQualifier := isAttached.isQualifier (List.mem_filter.mp isPrimary).1 target
  exact absurd isQualifier (by simp [kind])

/-- Among the marks of a statement, those that modify something modify its primary. -/
theorem id_eq_of_qualifies
    {statement : Statement}
    (isStatement : statement ∈ transcript.statements)
    {mark : Mark}
    (isMark : mark ∈ statement.marks)
    {id : MarkId}
    (target : mark.qualifies = some id) :
    statement.id = id := by
  rcases List.mem_cons.mp isMark with rfl | isQualifier
  · exact absurd target (by simp [qualifies_primary isAttached isStatement])
  · exact Option.some.inj ((qualifies_of_mem_statement isStatement isQualifier).symm.trans target)

/-- The marks of the other statements do not modify the primary of a statement. -/
theorem qualifies_ne_of_statements_eq
    {earlier later : List Statement}
    {statement other : Statement}
    (shape : transcript.statements = earlier ++ statement :: later)
    (isOther : other ∈ earlier ++ later)
    {mark : Mark}
    (isMark : mark ∈ other.marks) :
    mark.qualifies ≠ some statement.id := by
  have isStatement : other ∈ transcript.statements := by
    rw [shape]
    exact List.perm_middle.symm.subset (List.mem_cons_of_mem _ isOther)
  intro target
  exact id_ne_of_statements_eq shape other isOther
    (id_eq_of_qualifies isAttached isStatement isMark target)

/-- The marks attached to a primary are all marks that modify it. -/
theorem attached_eq_filter
    {id : MarkId}
    (isPrimary : id ∈ transcript.primaryIds) :
    transcript.attached id = transcript.marks.filter (·.qualifies = some id) := by
  rw [← map_id_statements] at isPrimary
  obtain ⟨statement, isStatement, rfl⟩ := List.mem_map.mp isPrimary
  obtain ⟨earlier, later, shape⟩ := List.append_of_mem isStatement
  have ownMarks : statement.marks.filter (·.qualifies = some statement.id) =
      statement.qualifiers := by
    have notPrimary := qualifies_primary isAttached isStatement
    rw [Statement.marks, List.filter_cons_of_neg (by simp [notPrimary])]
    exact List.filter_eq_self.mpr fun mark isQualifier => by
      simp [qualifies_of_mem_statement isStatement isQualifier]
  have noneOf : ∀ statements ⊆ earlier ++ later,
      (statements.flatMap Statement.marks).filter (·.qualifies = some statement.id) = [] := by
    intro statements areOthers
    rw [List.filter_eq_nil_iff]
    intro mark isMark target
    obtain ⟨other, isOther, ofOther⟩ := List.mem_flatMap.mp isMark
    exact qualifies_ne_of_statements_eq isAttached shape (areOthers isOther) ofOther
      (by simpa using target)
  rw [← flatMap_marks_statements isAttached, shape, List.flatMap_append, List.flatMap_cons,
    List.filter_append, List.filter_append, noneOf earlier (by simp), noneOf later (by simp),
    ownMarks, List.nil_append, List.append_nil, qualifiers_of_mem_statements isStatement]

/-- No mark is attached to what is not the number of a primary. -/
theorem attached_eq_nil
    {id : MarkId}
    (notPrimary : id ∉ transcript.primaryIds) :
    transcript.attached id = [] := by
  rw [List.eq_nil_iff_forall_not_mem]
  intro mark inRun
  obtain ⟨isMark, target⟩ := of_mem_attached inRun
  rw [← flatMap_marks_statements isAttached] at isMark
  obtain ⟨statement, isStatement, ofStatement⟩ := List.mem_flatMap.mp isMark
  have sameId := id_eq_of_qualifies isAttached isStatement ofStatement target
  apply notPrimary
  rw [← sameId, ← map_id_statements]
  exact List.mem_map_of_mem isStatement

/-- Another qualifier of the same primary changes the statement of that primary only. -/
theorem statements_replace
    {changed : Transcript}
    {earlier later : List Statement}
    {primary qualifier other : Mark}
    {front back : List Mark}
    (shape : transcript.statements = earlier ++ ⟨primary, front ++ qualifier :: back⟩ :: later)
    (isQualifier : other.isQualifier = true)
    (sameTarget : other.qualifies = qualifier.qualifies)
    (changedMarks : changed.marks =
      (earlier ++ ⟨primary, front ++ other :: back⟩ :: later).flatMap Statement.marks) :
    changed.statements = earlier ++ ⟨primary, front ++ other :: back⟩ :: later := by
  have formed := formed_statements isAttached
  have marksWith := Statement.flatMap_marks_middle earlier later primary front back
  rw [shape] at formed
  simp only [List.forall_mem_append, List.forall_mem_cons] at formed
  obtain ⟨earlierFormed, ownFormed, laterFormed⟩ := formed
  obtain ⟨frontQualifiers, wasQualifier, backQualifiers⟩ :=
    List.forall_mem_append.mp ownFormed.qualifiers |>.imp id List.forall_mem_cons.mp
  have otherFormed : Statement.IsFormed ⟨primary, front ++ other :: back⟩ :=
    ⟨ownFormed.primary, List.forall_mem_append.mpr
      ⟨frontQualifiers, List.forall_mem_cons.mpr ⟨isQualifier, backQualifiers⟩⟩⟩
  have changedAttached : Mark.AttachedFrom none changed.marks := by
    rw [changedMarks, marksWith]
    rw [← flatMap_marks_statements isAttached, shape, marksWith] at isAttached
    exact isAttached.replace wasQualifier isQualifier sameTarget
  -- Attached marks form statements in one way only, so it is enough that these are formed.
  rw [statements_eq_group changedAttached, changedMarks]
  exact Statement.group_flatMap_marks (List.forall_mem_append.mpr
    ⟨earlierFormed, List.forall_mem_cons.mpr ⟨otherFormed, laterFormed⟩⟩)

/-- Every qualifier counts for one primary alone. -/
theorem qualifiesOne
    {mark : Mark}
    (isMark : mark ∈ transcript.marks)
    (isQualifier : mark.isQualifier = true) :
    transcript.QualifiesOne mark := by
  have whole := flatMap_marks_statements isAttached
  rw [← whole] at isMark
  obtain ⟨statement, isStatement, ofStatement⟩ := List.mem_flatMap.mp isMark
  have inQualifiers : mark ∈ statement.qualifiers := by
    have isPrimary := (formed_statements isAttached statement isStatement).primary
    refine (List.mem_cons.mp ofStatement).resolve_left ?_
    rintro rfl
    exact absurd isQualifier (by simp [isPrimary])
  have target := qualifies_of_mem_statement isStatement inQualifiers
  obtain ⟨earlier, later, shape⟩ := List.append_of_mem isStatement
  obtain ⟨primary, qualifiers⟩ := statement
  obtain ⟨front, back, rfl⟩ := List.append_of_mem inQualifiers
  have marksWith := Statement.flatMap_marks_middle earlier later primary front back
  rw [shape, marksWith] at whole
  refine .intro whole.symm shape target ?_ ?_
  · exact fun other isOther ofOther =>
      qualifies_ne_of_statements_eq isAttached shape isOther ofOther target
  · intro other changed otherQualifier sameTarget changedMarks
    rw [← marksWith] at changedMarks
    have changedStatements :=
      statements_replace isAttached shape otherQualifier sameTarget changedMarks
    exact ⟨changedStatements, fun workflow => by rw [Model.ofTranscript, changedStatements]⟩

/-- Where all qualifiers are attached, the statements part the marks. -/
theorem isParted :
    transcript.IsParted where
  distinct := transcript.nodup_map_id.of_map
  resolved := transcript.filterMap_statement?_primaryIds
  parted := flatMap_marks_statements isAttached
  attached := fun _ isPrimary => attached_eq_filter isAttached isPrimary
  unattached := fun _ notPrimary => attached_eq_nil isAttached notPrimary
  qualifies := fun _ isMark isQualifier => qualifiesOne isAttached isMark isQualifier
  written := fun _ => .intro rfl (Skeleton.map_text_lines 0 transcript.statements)
    ((Skeleton.flatten_groups _).trans (flatMap_marks_statements isAttached))

end Attached

end Transcript

namespace Extraction

/--
After any comments, faulty ones included, the statements part the marks, and so they do in the
transcript of a run.
-/
theorem isParted_addEach
    (table : KeywordTable)
    (comments : List Comment) :
    (start.addEach table comments).transcript.IsParted ∧
      ∀ transcript,
        Transcript.ofComments table comments = .ok transcript → transcript.IsParted := by
  obtain ⟨_, hasRead⟩ := exists_hasRead_addEach (hasRead_start table) comments
  exact ⟨Transcript.isParted hasRead.attached.attached,
    fun _ extracted => Transcript.isParted (attached_of_ofComments extracted)⟩

set_option maxRecDepth 4000 in
/-- A qualifier counts for the primary of an earlier comment, with prose between them. -/
theorem isParted_addEach_later :
    ∃ transcript,
      Transcript.ofComments .standard
          [.onLine 1 "@in x", .onLine 2 "prose", .onLine 3 "@as y"] = .ok transcript ∧
        transcript.statements.map (fun statement => statement.marks.map Mark.text) =
          [["@in x", "@as y"]] ∧
        transcript.IsParted := by
  have texts :
      (Transcript.ofComments .standard
          [.onLine 1 "@in x", .onLine 2 "prose", .onLine 3 "@as y"]).map
          (fun transcript => transcript.statements.map
            fun statement => statement.marks.map Mark.text) =
        .ok [["@in x", "@as y"]] := by cbv
  cases extracted :
      Transcript.ofComments .standard
        [.onLine 1 "@in x", .onLine 2 "prose", .onLine 3 "@as y"] with
  | error fault =>
      rw [extracted] at texts
      cases texts
  | ok transcript =>
      rw [extracted] at texts
      exact ⟨transcript, rfl, Except.ok.inj texts,
        (isParted_addEach .standard _).2 transcript extracted⟩

end Extraction

end Flowmark
