import Flowmark.Outline
import Flowmark.Proofs.Outline.Nesting

namespace Flowmark

open Statement

/-!
# What an outline reader rejects

A statement offends where the statements before it do not allow it.  The reader carries the
statements read so far as blocks and open frames, so that its checks decide the same conditions.
-/

namespace Statement

/-- A statement does not fit after those before it, for a cause. -/
inductive Offence
    (before : List Statement)
    (statement : Statement) :
    Fault.Cause → Prop where
  | unmatched
      (closes : statement.tag.role = .closes)
      (noScope : ∀ opener, ¬ InnermostOpen before opener) :
      Offence before statement (.unmatchedEnd statement.name)
  | mismatched
      {opener : Statement}
      (closes : statement.tag.role = .closes)
      (innermost : InnermostOpen before opener)
      (differentName : opener.name ≠ statement.name) :
      Offence before statement
        (.mismatchedEnd opener.name statement.name opener.location)
  | outside
      (needsScope :
        statement.tag.role = .calls ∨ ∃ direction, statement.tag.role = .declares direction)
      (noScope : ∀ opener, ¬ InnermostOpen before opener) :
      Offence before statement (.outsideScope statement.tag statement.name)
  | duplicate
      {opener port : Statement}
      {direction : Direction}
      (declares : statement.tag.role = .declares direction)
      (innermost : InnermostOpen before opener)
      (held : StillHeld before direction port)
      (sameBinding : port.binding = statement.binding) :
      Offence before statement
        (.duplicateBinding opener.name direction statement.binding)

/-- A statement offends for one cause only. -/
theorem Offence.unique
    {before : List Statement}
    {statement : Statement}
    {cause cause' : Fault.Cause}
    (offence : Offence before statement cause)
    (offence' : Offence before statement cause') :
    cause = cause' := by
  cases offence with
  | unmatched closes noScope =>
      cases offence' with
      | unmatched => rfl
      | mismatched _ innermost _ => exact absurd innermost (noScope _)
      | outside needsScope _ => simp [closes] at needsScope
      | duplicate declares _ _ _ => simp [closes] at declares
  | mismatched closes innermost _ =>
      cases offence' with
      | unmatched _ noScope => exact absurd innermost (noScope _)
      | mismatched _ innermost' _ => rw [innermost.unique innermost']
      | outside needsScope _ => simp [closes] at needsScope
      | duplicate declares _ _ _ => simp [closes] at declares
  | outside needsScope noScope =>
      cases offence' with
      | unmatched closes _ => simp [closes] at needsScope
      | mismatched closes _ _ => simp [closes] at needsScope
      | outside => rfl
      | duplicate _ innermost _ _ => exact absurd innermost (noScope _)
  | duplicate declares innermost _ _ =>
      cases offence' with
      | unmatched closes _ => simp [closes] at declares
      | mismatched closes _ _ => simp [closes] at declares
      | outside _ noScope => exact absurd innermost (noScope _)
      | duplicate declares' innermost' _ _ =>
          have sameDirection := Tag.Role.declares.inj (declares.symm.trans declares')
          rw [innermost.unique innermost', sameDirection]

/-- No statement of a list offends. -/
def Fit
    (statements : List Statement) :
    Prop :=
  ∀ earlier statement later,
    statements = earlier ++ statement :: later → ∀ cause, ¬ Offence earlier statement cause

theorem fit_nil :
    Fit [] := by
  intro earlier statement later shape
  simp at shape

/-- Statements still fit with one more that does not offend behind them. -/
theorem Fit.concat
    {before : List Statement}
    {statement : Statement}
    (fit : Fit before)
    (inoffensive : ∀ cause, ¬ Offence before statement cause) :
    Fit (before ++ [statement]) := by
  intro earlier other later shape
  rcases List.eq_nil_or_concat later with rfl | ⟨between, final, rfl⟩
  · obtain ⟨rfl, sameLast⟩ := List.append_inj' shape rfl
    obtain ⟨rfl, _⟩ := List.cons.inj sameLast
    exact inoffensive
  · rw [List.concat_eq_append, ← List.cons_append, ← List.append_assoc] at shape
    obtain ⟨inBefore, _⟩ := List.append_inj' shape rfl
    exact fit earlier other between inBefore

/-- Where no statement offends, a port has another binding than each port that is still held. -/
theorem Fit.binding_ne
    {statements earlier later : List Statement}
    {port held : Statement}
    {direction : Direction}
    (fit : Fit statements)
    (shape : statements = earlier ++ port :: later)
    (declares : port.tag.role = .declares direction)
    (stillHeld : StillHeld earlier direction held) :
    held.binding ≠ port.binding := by
  intro sameBinding
  by_cases isOpen : ∃ opener, InnermostOpen earlier opener
  · obtain ⟨opener, innermost⟩ := isOpen
    exact fit _ _ _ shape _ (.duplicate declares innermost stillHeld sameBinding)
  · rw [not_exists] at isOpen
    exact fit _ _ _ shape _ (.outside (Or.inr ⟨direction, declares⟩) isOpen)

/-- The first offence of a list has one place only. -/
theorem first_offence_unique
    {before before' after after' : List Statement}
    {statement statement' : Statement}
    {cause cause' : Fault.Cause}
    (sameList : before ++ statement :: after = before' ++ statement' :: after')
    (fit : Fit before)
    (offence : Offence before statement cause)
    (fit' : Fit before')
    (offence' : Offence before' statement' cause') :
    statement = statement' ∧ cause = cause' := by
  rcases List.append_eq_append_iff.mp sameList with
    ⟨between, rfl, tailShape⟩ | ⟨between, rfl, tailShape⟩
  · rcases List.cons_eq_append_iff.mp tailShape with ⟨rfl, headShape⟩ | ⟨skipped, rfl, _⟩
    · obtain ⟨rfl, _⟩ := List.cons.inj headShape
      rw [List.append_nil] at offence'
      exact ⟨rfl, offence.unique offence'⟩
    · exact absurd offence (fit' before statement skipped rfl cause)
  · rcases List.cons_eq_append_iff.mp tailShape with ⟨rfl, headShape⟩ | ⟨skipped, rfl, _⟩
    · obtain ⟨rfl, _⟩ := List.cons.inj headShape
      rw [List.append_nil] at offence
      exact ⟨rfl, offence.unique offence'⟩
    · exact absurd offence' (fit before' statement' skipped rfl cause')

/-- The fault of a list is its first offence, or else the innermost scope that it leaves open. -/
inductive FirstFault
    (statements : List Statement) :
    Fault → Prop where
  | offence
      {before after : List Statement}
      {statement : Statement}
      {cause : Fault.Cause}
      (shape : statements = before ++ statement :: after)
      (fit : Fit before)
      (offence : Offence before statement cause) :
      FirstFault statements ⟨statement.location, cause⟩
  | unclosed
      {opener : Statement}
      (fit : Fit statements)
      (innermost : InnermostOpen statements opener) :
      FirstFault statements ⟨opener.location, .unclosedScope opener.name⟩

/-- Statements have one fault at most. -/
theorem FirstFault.unique
    {statements : List Statement}
    {fault fault' : Fault}
    (first : FirstFault statements fault)
    (first' : FirstFault statements fault') :
    fault = fault' := by
  cases first with
  | offence shape fit offence =>
      cases first' with
      | offence shape' fit' offence' =>
          obtain ⟨rfl, rfl⟩ :=
            first_offence_unique (shape.symm.trans shape') fit offence fit' offence'
          rfl
      | unclosed fit' _ => exact absurd offence (fit' _ _ _ shape _)
  | unclosed fit innermost =>
      cases first' with
      | offence shape' _ offence' => exact absurd offence' (fit _ _ _ shape' _)
      | unclosed _ innermost' => rw [innermost.unique innermost']

/-- Statements that fit and leave no scope open have no fault. -/
theorem not_firstFault
    {statements : List Statement}
    (fit : Fit statements)
    (allClosed : ∀ opener, ¬ InnermostOpen statements opener)
    (fault : Fault) :
    ¬ FirstFault statements fault := by
  intro first
  cases first with
  | offence shape _ offence => exact fit _ _ _ shape _ offence
  | unclosed _ innermost => exact allClosed _ innermost

end Statement

namespace Outline

/-- Each part of an outline has a statement with a suitable tag. -/
def HasRoles : Outline → Prop
  | nil => True
  | port declaration direction rest =>
      declaration.tag.role = .declares direction ∧ rest.HasRoles
  | call site rest => site.tag.role = .calls ∧ rest.HasRoles
  | scope opener body closer rest =>
      opener.tag.role = .opens ∧ body.HasRoles ∧ closer.tag.role = .closes ∧ rest.HasRoles

/-- An outline of two parts with suitable tags has suitable tags. -/
theorem HasRoles.append
    {before after : Outline}
    (beforeRoles : before.HasRoles)
    (afterRoles : after.HasRoles) :
    (before ++ after).HasRoles := by
  induction before with
  | nil => exact afterRoles
  | port declaration direction rest inductionHypothesis =>
      exact ⟨beforeRoles.1, inductionHypothesis beforeRoles.2⟩
  | call site rest inductionHypothesis =>
      exact ⟨beforeRoles.1, inductionHypothesis beforeRoles.2⟩
  | scope opener body closer rest _ inductionHypothesis =>
      obtain ⟨opens, bodyRoles, closes, restRoles⟩ := beforeRoles
      exact ⟨opens, bodyRoles, closes, inductionHypothesis restRoles⟩

/-- The statements of an outline are balanced. -/
theorem balanced_statements
    {outline : Outline}
    (roles : outline.HasRoles) :
    Balanced outline.statements := by
  induction outline with
  | nil => exact .nil
  | port declaration direction rest inductionHypothesis =>
      obtain ⟨declares, restRoles⟩ := roles
      exact .item (by simp [declares]) (by simp [declares]) (inductionHypothesis restRoles)
  | call site rest inductionHypothesis =>
      obtain ⟨calls, restRoles⟩ := roles
      exact .item (by simp [calls]) (by simp [calls]) (inductionHypothesis restRoles)
  | scope opener body closer rest bodyHypothesis restHypothesis =>
      obtain ⟨opens, bodyRoles, closes, restRoles⟩ := roles
      exact .scope opens (bodyHypothesis bodyRoles) closes (restHypothesis restRoles)

/-- A call is ahead where the statements are ports up to a call. -/
theorem callAhead_iff
    {outline : Outline}
    (roles : outline.HasRoles) :
    outline.callAhead = true ↔
      ∃ ports site rest,
        outline.statements = ports ++ site :: rest ∧
          (∀ other ∈ ports, ∃ direction, other.tag.role = .declares direction) ∧
          site.tag.role = .calls := by
  induction outline with
  | nil =>
      simp [callAhead, statements]
  | port declaration direction rest inductionHypothesis =>
      obtain ⟨declares, restRoles⟩ := roles
      rw [callAhead, inductionHypothesis restRoles, statements]
      constructor
      · rintro ⟨ports, site, after, shape, arePorts, calls⟩
        refine ⟨declaration :: ports, site, after, by rw [shape]; rfl, ?_, calls⟩
        exact List.forall_mem_cons.mpr ⟨⟨direction, declares⟩, arePorts⟩
      · rintro ⟨ports, site, after, shape, arePorts, calls⟩
        rcases List.cons_eq_append_iff.mp shape with ⟨rfl, headShape⟩ | ⟨ports, rfl, restShape⟩
        · obtain ⟨rfl, _⟩ := List.cons.inj headShape
          rw [declares] at calls
          cases calls
        · exact ⟨ports, site, after, restShape, (List.forall_mem_cons.mp arePorts).2, calls⟩
  | call site rest =>
      simp only [callAhead, statements, true_iff]
      exact ⟨[], site, rest.statements, rfl, by simp, roles.1⟩
  | scope opener body closer rest =>
      simp only [callAhead, statements, Bool.false_eq_true, false_iff]
      rintro ⟨ports, site, after, shape, arePorts, calls⟩
      rcases List.cons_eq_append_iff.mp shape with ⟨rfl, headShape⟩ | ⟨ports, rfl, _⟩
      · obtain ⟨rfl, _⟩ := List.cons.inj headShape
        rw [roles.1] at calls
        cases calls
      · obtain ⟨direction, declares⟩ := arePorts opener (by simp)
        rw [roles.1] at declares
        cases declares

/-- A call takes a port over in the outline where one does among the statements. -/
theorem takes_iff
    {following : Outline}
    (roles : following.HasRoles)
    (declaration : Statement) :
    following.takes declaration = true ↔ TakenOver declaration following.statements := by
  rw [takes, TakenOver, Bool.and_eq_true, callAhead_iff roles, bne_iff_ne]

/-- The ports that an outline holds are those that its statements leave held. -/
theorem mem_held_iff
    {outline : Outline}
    (roles : outline.HasRoles)
    (port : Statement)
    (direction : Direction) :
    (port, direction) ∈ outline.held ↔ StillHeld outline.statements direction port := by
  induction outline with
  | nil => simp [held, statements]
  | port declaration portDirection rest inductionHypothesis =>
      obtain ⟨declares, restRoles⟩ := roles
      have restBalanced := balanced_statements restRoles
      rw [statements, stillHeld_cons, ← inductionHypothesis restRoles, held]
      split
      · rename_i taken
        have takenOver := (takes_iff restRoles declaration).mp taken
        simp [takenOver]
      · rename_i kept
        rw [takes_iff restRoles] at kept
        simp [restBalanced, kept, declares, eq_comm]
  | call site rest inductionHypothesis =>
      rw [statements, stillHeld_cons, ← inductionHypothesis roles.2, held]
      simp [roles.1]
  | scope opener body closer rest _ inductionHypothesis =>
      obtain ⟨opens, bodyRoles, closes, restRoles⟩ := roles
      rw [statements, held, inductionHypothesis restRoles]
      exact (stillHeld_of_scope opens (balanced_statements bodyRoles) closes
        (balanced_statements restRoles) direction port).symm

/-- An outline holds a binding where its statements leave a port with the binding held. -/
theorem holds_iff
    {outline : Outline}
    (roles : outline.HasRoles)
    (direction : Direction)
    (binding : String) :
    outline.holds direction binding = true ↔
      ∃ port, StillHeld outline.statements direction port ∧ port.binding = binding := by
  simp only [holds, List.any_eq_true, decide_eq_true_eq, Prod.exists]
  constructor
  · rintro ⟨port, _, member, rfl, sameBinding⟩
    exact ⟨port, (mem_held_iff roles port _).mp member, sameBinding⟩
  · rintro ⟨port, held, sameBinding⟩
    exact ⟨port, direction, (mem_held_iff roles port direction).mpr held, rfl, sameBinding⟩

end Outline

end Flowmark
