import Flowmark.Proofs.Markup.Grouping

namespace Flowmark

/-!
# Slices of transcripts

The marks from one primary up to a later one make a transcript of their own once they are numbered
from one again.  Its statements are those of the whole transcript between the two, with lowered
numbers, and the last of them has lost its qualifiers.
-/

namespace Mark

/-- A mark with a lowered number, and so is the number of the primary that it modifies. -/
def unshift
    (count : Nat)
    (mark : Mark) :
    Mark :=
  { mark with
    id := mark.id - count
    qualifies := mark.qualifies.map (· - count) }

/-- Lowering numbers and raising them again gives the mark back. -/
theorem shift_unshift
    {count : Nat}
    {mark : Mark}
    (idAbove : count ≤ mark.id)
    (targetAbove : ∀ target, mark.qualifies = some target → count ≤ target) :
    (mark.unshift count).shift count = mark := by
  rcases mark with ⟨⟨location, tag, keyword, name, nameKind, description, qualifies⟩, id⟩
  cases qualifies with
  | none => simp [shift, unshift, Nat.add_sub_cancel' idAbove]
  | some target =>
      simp [shift, unshift, Nat.add_sub_cancel' idAbove,
        Nat.add_sub_cancel' (targetAbove target rfl)]

/-- What is attached is attached to the primary before the marks or to one of them. -/
theorem AttachedFrom.target
    {latest : Option MarkId}
    {marks : List Mark}
    (attached : AttachedFrom latest marks)
    {mark : Mark}
    (isMark : mark ∈ marks)
    {target : MarkId}
    (isTarget : mark.qualifies = some target) :
    latest = some target ∨ ∃ primary ∈ marks, primary.id = target := by
  induction marks generalizing latest with
  | nil => cases isMark
  | cons first marks inductionHypothesis =>
      rw [AttachedFrom] at attached
      cases kind : first.isQualifier with
      | true =>
          obtain ⟨_, sameTarget, laterAttached⟩ := (if_pos kind).mp attached
          rcases List.mem_cons.mp isMark with rfl | later
          · exact Or.inl (sameTarget.symm.trans isTarget)
          · rcases inductionHypothesis laterAttached later with
              before | ⟨primary, isPrimary, number⟩
            · exact Or.inl before
            · exact Or.inr ⟨primary, List.mem_cons_of_mem _ isPrimary, number⟩
      | false =>
          obtain ⟨noTarget, laterAttached⟩ := (if_neg (by simp [kind])).mp attached
          rcases List.mem_cons.mp isMark with rfl | later
          · rw [noTarget] at isTarget
            cases isTarget
          · rcases inductionHypothesis laterAttached later with
              before | ⟨primary, isPrimary, number⟩
            · exact Or.inr ⟨first, List.mem_cons_self, Option.some.inj before⟩
            · exact Or.inr ⟨primary, List.mem_cons_of_mem _ isPrimary, number⟩

end Mark

namespace Transcript

/-- The marks from one number up to another, numbered from one. -/
def slice
    (transcript : Transcript)
    (first last : Nat) :
    Transcript where
  marks := ((transcript.marks.take last).drop (first - 1)).map (Mark.unshift (first - 1))
  numbered := by
    apply List.ext_getElem
    · simp
    · intro position inMarks _
      have inTranscript : first - 1 + position < transcript.marks.length := by
        simp only [List.length_map, List.length_drop, List.length_take] at inMarks
        omega
      have number := transcript.id_of_getElem? (List.getElem?_eq_getElem inTranscript)
      simp only [List.getElem_map, List.getElem_drop, List.getElem_take, List.getElem_range',
        Mark.unshift, number, Nat.one_mul]
      have lowered : first - 1 + position + 1 - (first - 1) = 1 + position := by omega
      exact lowered

/-- Marks behind a number of others have larger numbers. -/
theorem lt_id_of_mem_drop
    {transcript : Transcript}
    {last count : Nat}
    {mark : Mark}
    (isMark : mark ∈ (transcript.marks.take last).drop count) :
    count < mark.id := by
  obtain ⟨position, inBounds, rfl⟩ := List.getElem_of_mem isMark
  have inTranscript : count + position < transcript.marks.length := by
    simp only [List.length_drop, List.length_take] at inBounds
    omega
  have number := transcript.id_of_getElem? (List.getElem?_eq_getElem inTranscript)
  rw [List.getElem_drop, List.getElem_take, number]
  exact Nat.lt_succ_of_le (Nat.le_add_right count position)

/-- The numbers of a slice may be raised again. -/
theorem map_shift_slice
    {transcript : Transcript}
    {first last : Nat}
    (attached :
      Mark.AttachedFrom none ((transcript.marks.take last).drop (first - 1))) :
    (transcript.slice first last).marks.map (Mark.shift (first - 1)) =
      (transcript.marks.take last).drop (first - 1) := by
  rw [slice, List.map_map]
  refine (List.map_congr_left ?_).trans (List.map_id _)
  intro mark isMark
  refine Mark.shift_unshift (Nat.le_of_lt (lt_id_of_mem_drop isMark)) ?_
  intro target isTarget
  rcases attached.target isMark isTarget with noPrimary | ⟨primary, isPrimary, rfl⟩
  · cases noPrimary
  · exact Nat.le_of_lt (lt_id_of_mem_drop isPrimary)

/-! ## Statements at the ends of a slice -/

variable {transcript : Transcript} (attached : Mark.AttachedFrom none transcript.marks)

include attached

/-- A statement has the number after those of all marks before it. -/
theorem id_of_statements_eq
    {before after : List Statement}
    {statement : Statement}
    (shape : transcript.statements = before ++ statement :: after) :
    statement.id = (before.flatMap Statement.marks).length + 1 := by
  apply transcript.id_of_getElem?
  rw [← flatMap_marks_statements attached, shape, List.flatMap_append, List.flatMap_cons]
  simp [Statement.marks]

/-- The marks up to a primary are those of the statements before it, and the primary. -/
theorem take_of_statements_eq
    {before after : List Statement}
    {statement : Statement}
    (shape : transcript.statements = before ++ statement :: after) :
    transcript.marks.take statement.id =
      before.flatMap Statement.marks ++ [statement.primary] := by
  rw [id_of_statements_eq attached shape, ← flatMap_marks_statements attached, shape,
    List.flatMap_append, List.flatMap_cons, List.take_length_add_append]
  simp [Statement.marks]

/-- Statements whose marks come first, with a primary behind them, are the first statements. -/
theorem statements_eq_of_take
    {before : List Statement}
    (formed : ∀ statement ∈ before, statement.IsFormed)
    {primary : Mark}
    (isPrimary : primary.isQualifier = false)
    {last : MarkId}
    (first : transcript.marks.take last = before.flatMap Statement.marks ++ [primary]) :
    ∃ qualifiers after, transcript.statements = before ++ ⟨primary, qualifiers⟩ :: after := by
  have shape :
      transcript.marks =
        before.flatMap Statement.marks ++ (primary :: transcript.marks.drop last) := by
    have parted := List.take_append_drop last transcript.marks
    rw [first, List.append_assoc] at parted
    exact parted.symm
  have noQualifier :
      (primary :: transcript.marks.drop last).takeWhile Mark.isQualifier = [] := by
    simp [isPrimary]
  have grouped := statements_eq_group attached
  rw [shape, Statement.group_flatMap_marks_append formed _ noQualifier] at grouped
  simp only [Statement.group, isPrimary, Bool.false_eq_true, if_false] at grouped
  exact ⟨_, _, grouped⟩

/-- The statements of a slice are those between its ends, the last one without its qualifiers. -/
theorem statements_slice
    {before inside after : List Statement}
    {opener closer : Statement}
    (shape : transcript.statements = before ++ opener :: (inside ++ closer :: after)) :
    (transcript.slice opener.id closer.id).statements.map (Statement.shift (opener.id - 1)) =
      opener :: (inside ++ [⟨closer.primary, []⟩]) := by
  let part : List Statement := opener :: (inside ++ [⟨closer.primary, []⟩])
  let lowered := transcript.slice opener.id closer.id
  have openerId := id_of_statements_eq attached shape
  have formed := formed_statements attached
  rw [shape] at formed
  obtain ⟨_, openerFormed, restFormed⟩ :=
    List.forall_mem_append.mp formed |>.imp id List.forall_mem_cons.mp
  obtain ⟨insideFormed, closerFormed, _⟩ :=
    List.forall_mem_append.mp restFormed |>.imp id List.forall_mem_cons.mp
  have partFormed : ∀ statement ∈ part, statement.IsFormed :=
    List.forall_mem_cons.mpr ⟨openerFormed, List.forall_mem_append.mpr
      ⟨insideFormed, List.forall_mem_singleton.mpr ⟨closerFormed.primary, by simp⟩⟩⟩
  have partMarks :
      (transcript.marks.take closer.id).drop (opener.id - 1) = part.flatMap Statement.marks := by
    have shape' : transcript.statements = (before ++ opener :: inside) ++ closer :: after := by
      simp [shape]
    rw [take_of_statements_eq attached shape', openerId, List.flatMap_append]
    simp [part, Statement.marks]
  have partAttached : Mark.AttachedFrom none (part.flatMap Statement.marks) := by
    have parted :
        transcript.marks =
          before.flatMap Statement.marks ++
            (part.flatMap Statement.marks ++
              (closer.qualifiers ++ after.flatMap Statement.marks)) := by
      rw [← flatMap_marks_statements attached, shape]
      simp [part, Statement.marks]
    rw [parted] at attached
    obtain ⟨_, behind⟩ := Mark.attachedFrom_append.mp attached
    exact Mark.AttachedFrom.of_head openerFormed.primary (Mark.attachedFrom_append.mp behind).1
  -- Raised again, the marks of the slice are those of the statements from the opener on.
  have raised : lowered.marks.map (Mark.shift (opener.id - 1)) = part.flatMap Statement.marks := by
    rw [← partMarks] at partAttached ⊢
    exact map_shift_slice partAttached
  have loweredAttached : Mark.AttachedFrom none lowered.marks := by
    rw [← Mark.attachedFrom_shift (opener.id - 1), raised]
    exact partAttached
  rw [statements_eq_group loweredAttached, ← Statement.group_map_shift, raised,
    Statement.group_flatMap_marks partFormed]

end Transcript

end Flowmark
