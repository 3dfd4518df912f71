import Flowmark.Proofs.Markup.Replay
import Mathlib.Data.List.Nodup

namespace Flowmark

/-!
# Marks grouped into statements

A sequence of marks forms statements in one way only: each primary with the qualifiers directly
after it.  Where the numbers of all marks are raised alike, qualifiers keep their primaries and the
statements are the same with raised numbers.
-/

/-! ## Raised numbers -/

namespace Mark

/-- A mark with a raised number, and so is the number of the primary that it modifies. -/
def shift
    (count : Nat)
    (mark : Mark) :
    Mark :=
  { mark with
    id := count + mark.id
    qualifies := mark.qualifies.map (count + ·) }

/-- Raising numbers keeps what statements say. -/
theorem keeps_shift
    (count : Nat) :
    Keeps (shift count) where
  tag := fun _ => rfl
  name := fun _ => rfl
  description := fun _ => rfl

@[simp] theorem isQualifier_shift
    (count : Nat)
    (mark : Mark) :
    (mark.shift count).isQualifier = mark.isQualifier :=
  rfl

/-- Marks with raised numbers are attached where the marks are. -/
theorem attachedFrom_shift
    (count : Nat)
    (latest : Option MarkId)
    (marks : List Mark) :
    AttachedFrom (latest.map (count + ·)) (marks.map (shift count)) ↔
      AttachedFrom latest marks := by
  have sameTarget : ∀ first second : Option MarkId,
      first.map (count + ·) = second.map (count + ·) ↔ first = second := by
    intro first second
    cases first <;> cases second <;> simp
  induction marks generalizing latest with
  | nil => rfl
  | cons mark marks inductionHypothesis =>
      rw [List.map_cons, AttachedFrom, AttachedFrom, isQualifier_shift]
      cases mark.isQualifier with
      | true =>
          have sameMark :
              (mark.shift count).qualifies = latest.map (count + ·) ↔ mark.qualifies = latest :=
            sameTarget mark.qualifies latest
          simp [sameMark, inductionHypothesis]
      | false =>
          have sameMark : (mark.shift count).qualifies = none ↔ mark.qualifies = none :=
            sameTarget mark.qualifies none
          simp only [Bool.false_eq_true, if_false, sameMark]
          exact and_congr_right fun _ => inductionHypothesis (some mark.id)

/-- Marks that begin with a primary do not depend on the primaries before them. -/
theorem AttachedFrom.of_head
    {latest latest' : Option MarkId}
    {mark : Mark}
    {rest : List Mark}
    (isPrimary : mark.isQualifier = false)
    (attached : AttachedFrom latest (mark :: rest)) :
    AttachedFrom latest' (mark :: rest) := by
  rw [AttachedFrom, if_neg (by simp [isPrimary])] at attached ⊢
  exact attached

/-- Only qualifiers are attached. -/
theorem AttachedFrom.isQualifier
    {latest : Option MarkId}
    {marks : List Mark}
    (attached : AttachedFrom latest marks)
    {mark : Mark}
    (isMark : mark ∈ marks)
    (target : mark.qualifies ≠ none) :
    mark.isQualifier = true := by
  induction marks generalizing latest with
  | nil => cases isMark
  | cons first marks inductionHypothesis =>
      rw [AttachedFrom] at attached
      cases kind : first.isQualifier with
      | true =>
          rw [if_pos kind] at attached
          rcases List.mem_cons.mp isMark with rfl | later
          · exact kind
          · exact inductionHypothesis attached.2.2 later
      | false =>
          rw [if_neg (by simp [kind])] at attached
          rcases List.mem_cons.mp isMark with rfl | later
          · exact absurd attached.1 target
          · exact inductionHypothesis attached.2 later

end Mark

namespace Statement

/-- A statement whose marks have raised numbers. -/
def shift
    (count : Nat)
    (statement : Statement) :
    Statement where
  primary := statement.primary.shift count
  qualifiers := statement.qualifiers.map (Mark.shift count)

variable (count : Nat) (statement : Statement)

@[simp] theorem tag_shift :
    (statement.shift count).tag = statement.tag :=
  rfl

@[simp] theorem binding_shift :
    (statement.shift count).binding = statement.binding :=
  binding_map (Mark.keeps_shift count) statement

@[simp] theorem description?_shift :
    (statement.shift count).description? = statement.description? :=
  description?_map (Mark.keeps_shift count) statement

@[simp] theorem uri?_shift :
    (statement.shift count).uri? = statement.uri? :=
  uri?_map (Mark.keeps_shift count) statement

/-- The marks of raised statements are the raised marks. -/
theorem flatMap_marks_shift
    (statements : List Statement) :
    (statements.map (shift count)).flatMap marks =
      (statements.flatMap marks).map (Mark.shift count) := by
  rw [List.flatMap_map, List.map_flatMap]
  rfl

/-! ## One way to group -/

/-- Every primary with the qualifiers directly after it. -/
def group : List Mark → List Statement
  | [] => []
  | mark :: rest =>
      if mark.isQualifier then
        group rest
      else
        ⟨mark, rest.takeWhile Mark.isQualifier⟩ :: group rest

/-- Raising the numbers of marks does not change how they are grouped. -/
theorem group_map_shift
    (marks : List Mark) :
    group (marks.map (Mark.shift count)) = (group marks).map (shift count) := by
  induction marks with
  | nil => rfl
  | cons mark marks inductionHypothesis =>
      have sameKinds : Mark.isQualifier ∘ Mark.shift count = Mark.isQualifier :=
        funext fun mark => mark.isQualifier_shift count
      simp only [List.map_cons, group, Mark.isQualifier_shift, inductionHypothesis,
        List.takeWhile_map, sameKinds]
      split
      · rfl
      · rfl

/-- A statement has one primary, which comes first. -/
structure IsFormed
    (statement : Statement) :
    Prop where
  primary : statement.primary.isQualifier = false
  qualifiers : ∀ mark ∈ statement.qualifiers, mark.isQualifier = true

/-- A statement with raised numbers has one primary, which comes first. -/
theorem IsFormed.shift
    {statement : Statement}
    (formed : statement.IsFormed) :
    (statement.shift count).IsFormed where
  primary := formed.primary
  qualifiers := by
    intro mark isMark
    obtain ⟨original, isOriginal, rfl⟩ := List.mem_map.mp isMark
    exact formed.qualifiers original isOriginal

/-- Qualifiers without a primary before them are in no group. -/
theorem group_append_of_qualifiers
    {qualifiers : List Mark}
    (areQualifiers : ∀ mark ∈ qualifiers, mark.isQualifier = true)
    (rest : List Mark) :
    group (qualifiers ++ rest) = group rest := by
  induction qualifiers with
  | nil => rfl
  | cons mark qualifiers inductionHypothesis =>
      obtain ⟨isQualifier, laterQualifiers⟩ := List.forall_mem_cons.mp areQualifiers
      simp [group, isQualifier, inductionHypothesis laterQualifiers]

/-- Formed statements are found again in their marks, whatever primary follows them. -/
theorem group_flatMap_marks_append
    {statements : List Statement}
    (formed : ∀ statement ∈ statements, statement.IsFormed)
    (rest : List Mark)
    (noQualifier : rest.takeWhile Mark.isQualifier = []) :
    group (statements.flatMap marks ++ rest) = statements ++ group rest := by
  induction statements with
  | nil => rfl
  | cons statement statements inductionHypothesis =>
      obtain ⟨statementFormed, restFormed⟩ := List.forall_mem_cons.mp formed
      have noneLater :
          (statements.flatMap marks ++ rest).takeWhile Mark.isQualifier = [] := by
        cases statements with
        | nil => exact noQualifier
        | cons next statements =>
            have isPrimary := (restFormed next List.mem_cons_self).primary
            simp [marks, isPrimary]
      have own :
          (statement.qualifiers ++ (statements.flatMap marks ++ rest)).takeWhile
              Mark.isQualifier = statement.qualifiers := by
        rw [List.takeWhile_append_of_pos statementFormed.qualifiers, noneLater, List.append_nil]
      simp only [List.flatMap_cons, marks, List.cons_append, List.append_assoc, group,
        statementFormed.primary, Bool.false_eq_true, if_false, own,
        group_append_of_qualifiers statementFormed.qualifiers, inductionHypothesis restFormed]

/-- Formed statements are found again in their marks. -/
theorem group_flatMap_marks
    {statements : List Statement}
    (formed : ∀ statement ∈ statements, statement.IsFormed) :
    group (statements.flatMap marks) = statements := by
  have grouped := group_flatMap_marks_append formed [] rfl
  simpa [group] using grouped

end Statement

namespace Transcript

/-- A statement of a transcript is told apart from the others by its number. -/
theorem id_ne_of_statements_eq
    {transcript : Transcript}
    {before after : List Statement}
    {statement : Statement}
    (shape : transcript.statements = before ++ statement :: after) :
    ∀ other ∈ before ++ after, other.id ≠ statement.id := by
  have distinct := transcript.nodup_id_statements
  rw [shape, List.map_append, List.map_cons, List.nodup_middle, ← List.map_append] at distinct
  intro other isOther sameId
  exact (List.nodup_cons.mp distinct).1 (sameId ▸ List.mem_map_of_mem isOther)

/-- What stands around a statement of a transcript is determined by its number. -/
theorem eq_of_statements_eq
    {transcript : Transcript}
    {before before' after after' : List Statement}
    {statement statement' : Statement}
    (shape : transcript.statements = before ++ statement :: after)
    (shape' : transcript.statements = before' ++ statement' :: after')
    (sameId : statement'.id = statement.id) :
    before = before' ∧ statement = statement' ∧ after = after' := by
  have others := id_ne_of_statements_eq shape
  have notBefore : statement' ∉ before := fun isBefore =>
    others statement' (List.mem_append_left _ isBefore) sameId
  have notAfter : statement' ∉ after := fun isAfter =>
    others statement' (List.mem_append_right _ isAfter) sameId
  exact (List.append_cons_inj_of_notMem notBefore notAfter).mp (shape.symm.trans shape')

/-- An attached mark is a mark of the transcript that modifies the number. -/
theorem of_mem_attached
    {transcript : Transcript}
    {id : MarkId}
    {mark : Mark}
    (isAttached : mark ∈ transcript.attached id) :
    mark ∈ transcript.marks ∧ mark.qualifies = some id := by
  cases id with
  | zero => cases isAttached
  | succ index =>
      exact ⟨List.mem_of_mem_drop ((List.takeWhile_sublist _).subset isAttached),
        by simpa using List.mem_takeWhile_imp isAttached⟩

/-- The marks of the statements of a transcript are marks of the transcript. -/
theorem mem_of_mem_statements
    {transcript : Transcript}
    {statement : Statement}
    (isStatement : statement ∈ transcript.statements)
    {mark : Mark}
    (isMark : mark ∈ statement.marks) :
    mark ∈ transcript.marks := by
  obtain ⟨primary, isPrimary, rfl⟩ := List.mem_map.mp isStatement
  rcases List.mem_cons.mp isMark with rfl | isQualifier
  · exact (List.mem_filter.mp isPrimary).1
  · exact (of_mem_attached isQualifier).1

/-- Every statement of a transcript has one primary, which comes first. -/
theorem formed_statements
    {transcript : Transcript}
    (attached : Mark.AttachedFrom none transcript.marks) :
    ∀ statement ∈ transcript.statements, statement.IsFormed := by
  intro statement isStatement
  obtain ⟨primary, isPrimary, rfl⟩ := List.mem_map.mp isStatement
  refine ⟨?_, ?_⟩
  · simpa [Mark.isPrimary, Tag.isPrimary, Mark.isQualifier] using
      (List.mem_filter.mp isPrimary).2
  · intro mark isAttached
    obtain ⟨isMark, target⟩ := of_mem_attached isAttached
    exact attached.isQualifier isMark (by simp [target])

/-- The statements of a transcript are its marks grouped, where all qualifiers are attached. -/
theorem statements_eq_group
    {transcript : Transcript}
    (attached : Mark.AttachedFrom none transcript.marks) :
    transcript.statements = Statement.group transcript.marks := by
  rw [← flatMap_marks_statements attached,
    Statement.group_flatMap_marks (formed_statements attached)]

end Transcript

end Flowmark
