import Flowmark.Markup.Statement
import Mathlib.Data.List.Induction
import Mathlib.Data.List.TakeWhile

namespace Flowmark

/-!
# Qualification of primaries

A statement has a primary and the run of marks behind it that modify it.  What the statement says is
here told from these marks: the last rebinding of the run counts, and the last place.
-/

/-- The last of some marks that passes a test, where one does. -/
inductive LastWith
    (test : Mark → Bool)
    (marks : List Mark) :
    Option Mark → Prop where
  | found
      {before after : List Mark}
      {mark : Mark}
      (shape : marks = before ++ mark :: after)
      (passes : test mark = true)
      (last : ∀ later ∈ after, test later = false) :
      LastWith test marks (some mark)
  | none
      (fails : ∀ mark ∈ marks, test mark = false) :
      LastWith test marks none

/-- The last mark that passes a test is the last of those that pass it. -/
theorem lastWith_getLast?_filter
    (test : Mark → Bool)
    (marks : List Mark) :
    LastWith test marks (marks.filter test).getLast? := by
  induction marks using List.reverseRecOn with
  | nil => exact .none (by simp)
  | append_singleton marks mark inductionHypothesis =>
      rw [List.filter_append]
      cases passes : test mark with
      | true =>
          rw [List.filter_cons_of_pos passes, List.filter_nil, List.getLast?_concat]
          exact .found rfl passes (by simp)
      | false =>
          rw [List.filter_cons_of_neg (by simp [passes]), List.filter_nil, List.append_nil]
          generalize (marks.filter test).getLast? = last at inductionHypothesis
          cases inductionHypothesis with
          | none fails =>
              exact .none (List.forall_mem_append.mpr
                ⟨fails, List.forall_mem_singleton.mpr passes⟩)
          | found shape earlierPasses isLast =>
              refine .found (by rw [shape, List.append_assoc]; rfl) earlierPasses ?_
              exact List.forall_mem_append.mpr ⟨isLast, List.forall_mem_singleton.mpr passes⟩

/-- Texts joined by single blanks, if there are any. -/
inductive JoinedTo
    (texts : List String) :
    Option String → Prop where
  | none
      (empty : texts = []) :
      JoinedTo texts none
  | some
      (nonempty : texts ≠ []) :
      JoinedTo texts (some (" ".intercalate texts))

namespace Statement

variable (statement : Statement)

/-- The binding is the name of the last rebinding, or else that of the primary. -/
theorem exists_alias :
    ∃ alias?,
      LastWith (·.tag = .rebind) statement.qualifiers alias? ∧
        statement.binding = (alias?.map (·.name)).getD statement.name :=
  ⟨_, lastWith_getLast?_filter _ _, rfl⟩

/-- The description joins those of the primary and of all rebindings. -/
theorem joined_description :
    JoinedTo
      ((statement.primary :: statement.qualifiers.filter (·.tag = .rebind)).filterMap
        (·.description))
      statement.description? := by
  unfold description? rebindings
  split
  · rename_i empty
    exact .none empty
  · rename_i nonempty
    exact .some nonempty

/-- The URI is what the last place names. -/
theorem exists_place :
    ∃ place?,
      LastWith (fun mark => mark.tag = .uri ∨ mark.tag = .file) statement.qualifiers place? ∧
        statement.uri? = place?.map placeOf :=
  ⟨_, lastWith_getLast?_filter _ _, rfl⟩

end Statement

namespace Transcript

/-- A run is all marks directly behind a primary that modify it. -/
structure HasRun
    (transcript : Transcript)
    (primary : Mark)
    (run : List Mark) :
    Prop where
  shape : ∃ earlier later,
    transcript.marks = earlier ++ primary :: (run ++ later) ∧
      ∀ mark ∈ later.head?, mark.qualifies ≠ some primary.id
  modify : ∀ mark ∈ run, mark.qualifies = some primary.id

/-- A mark of a transcript has the run that is attached to it. -/
theorem hasRun_attached
    {transcript : Transcript}
    {mark : Mark}
    (isMark : mark ∈ transcript.marks) :
    transcript.HasRun mark (transcript.attached mark.id) := by
  obtain ⟨earlier, behind, shape⟩ := List.append_of_mem isMark
  have number : mark.id = earlier.length + 1 := transcript.id_of_getElem? (by simp [shape])
  let modifies : Mark → Bool := fun other => other.qualifies = some mark.id
  have attached : transcript.attached mark.id = behind.takeWhile modifies := by
    have dropped : transcript.marks.drop mark.id = behind := by
      rw [number, shape, ← List.drop_drop, List.drop_left]
      rfl
    rw [← dropped]
    simp only [modifies, number]
    rfl
  refine ⟨⟨earlier, behind.dropWhile modifies, ?_, ?_⟩, ?_⟩
  · rw [attached, List.takeWhile_append_dropWhile, shape]
  · intro next isNext
    have noMatch := List.head?_dropWhile_not modifies behind
    rw [Option.mem_def.mp isNext] at noMatch
    exact of_decide_eq_false noMatch
  · rw [attached]
    intro other isOther
    have isMatch : modifies other = true := List.mem_takeWhile_imp isOther
    exact of_decide_eq_true isMatch

/-- A statement has a primary with its run. -/
theorem hasRun_of_mem_statements
    {transcript : Transcript}
    {statement : Statement}
    (isStatement : statement ∈ transcript.statements) :
    transcript.HasRun statement.primary statement.qualifiers := by
  obtain ⟨primary, isPrimary, rfl⟩ := List.mem_map.mp isStatement
  exact hasRun_attached (List.mem_filter.mp isPrimary).1

end Transcript

end Flowmark
