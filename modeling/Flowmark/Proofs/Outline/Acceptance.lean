import Flowmark.Proofs.Outline.Offence

namespace Flowmark

open Statement

/-!
# Acceptance by the outline reader

Blocks and open frames hold the statements read so far, and the frames are the scopes that these
leave open.  So a step fails exactly at an offence, and a run at the first one.
-/

namespace Block

/-- The statements of a block have suitable tags. -/
structure HasRoles
    (block : Block) :
    Prop where
  opens : block.opener.tag.role = .opens
  body : block.body.HasRoles
  closes : block.closer.tag.role = .closes

/-- The statements of a block are balanced. -/
theorem balanced_statements
    {block : Block}
    (roles : block.HasRoles) :
    Balanced block.statements :=
  .scope roles.opens (Outline.balanced_statements roles.body) roles.closes .nil

end Block

namespace Frame

/-- The statements of an open scope, those of inner open scopes excepted. -/
def statements
    (frame : Frame) :
    List Statement :=
  frame.opener :: frame.body.statements

/-- The statements of an open scope have suitable tags. -/
structure HasRoles
    (frame : Frame) :
    Prop where
  opens : frame.opener.tag.role = .opens
  body : frame.body.HasRoles

/-- A further part adds its statements at the end of those of the open scope. -/
theorem statements_extend
    (frame : Frame)
    (part : Outline) :
    (frame.extend part).statements = frame.statements ++ part.statements := by
  simp [extend, statements]

/-- An open scope with suitable tags keeps them with a further part that has them. -/
theorem HasRoles.extend
    {frame : Frame}
    {part : Outline}
    (roles : frame.HasRoles)
    (partRoles : part.HasRoles) :
    (frame.extend part).HasRoles where
  opens := roles.opens
  body := roles.body.append partRoles

end Frame

namespace OutlineReader

/-- The statements that a reader has read. -/
def statements
    (reader : OutlineReader) :
    List Statement :=
  reader.blocks.flatMap Block.statements ++ reader.frames.reverse.flatMap Frame.statements

/-- The statements of a reader have suitable tags. -/
structure HasRoles
    (reader : OutlineReader) :
    Prop where
  frames : ∀ frame ∈ reader.frames, frame.HasRoles
  blocks : ∀ block ∈ reader.blocks, block.HasRoles

/-- Before any statement there is no unsuitable tag. -/
theorem start_hasRoles :
    start.HasRoles where
  frames := by simp [start]
  blocks := by simp [start]

/-- The statements read end with those of the innermost frame. -/
theorem statements_of_frames
    {reader : OutlineReader}
    {frame : Frame}
    {outer : List Frame}
    (frames : reader.frames = frame :: outer) :
    reader.statements =
      (reader.blocks.flatMap Block.statements ++ outer.reverse.flatMap Frame.statements) ++
        frame.opener :: frame.body.statements := by
  simp [statements, frames, Frame.statements]

/-- The statements of blocks are balanced together. -/
theorem balanced_blocks
    {blocks : List Block}
    (roles : ∀ block ∈ blocks, block.HasRoles) :
    Balanced (blocks.flatMap Block.statements) := by
  induction blocks with
  | nil => exact .nil
  | cons block blocks inductionHypothesis =>
      obtain ⟨blockRoles, restRoles⟩ := List.forall_mem_cons.mp roles
      exact (Block.balanced_statements blockRoles).append (inductionHypothesis restRoles)

/-- Without frames no scope is open. -/
theorem not_innermostOpen
    {reader : OutlineReader}
    (roles : reader.HasRoles)
    (frames : reader.frames = [])
    (opener : Statement) :
    ¬ InnermostOpen reader.statements opener := by
  have balanced := balanced_blocks roles.blocks
  rw [show reader.statements = reader.blocks.flatMap Block.statements by
    simp [statements, frames]]
  exact balanced.not_innermostOpen opener

/-- The innermost open scope is that of the innermost frame. -/
theorem innermostOpen_iff
    {reader : OutlineReader}
    (roles : reader.HasRoles)
    {frame : Frame}
    {outer : List Frame}
    (frames : reader.frames = frame :: outer)
    (opener : Statement) :
    InnermostOpen reader.statements opener ↔ opener = frame.opener := by
  have frameRoles := roles.frames frame (by simp [frames])
  rw [statements_of_frames frames]
  exact Statement.innermostOpen_iff frameRoles.opens
    (Outline.balanced_statements frameRoles.body) opener

/-- Where a scope is open, the innermost frame has its opener. -/
theorem frames_of_innermostOpen
    {reader : OutlineReader}
    (roles : reader.HasRoles)
    {opener : Statement}
    (innermost : InnermostOpen reader.statements opener) :
    ∃ frame outer, reader.frames = frame :: outer ∧ opener = frame.opener := by
  cases frames : reader.frames with
  | nil => exact absurd innermost (not_innermostOpen roles frames opener)
  | cons frame outer =>
      exact ⟨frame, outer, rfl, (innermostOpen_iff roles frames opener).mp innermost⟩

/-- Where no scope is open, there is no frame. -/
theorem frames_eq_nil
    {reader : OutlineReader}
    (roles : reader.HasRoles)
    (noScope : ∀ opener, ¬ InnermostOpen reader.statements opener) :
    reader.frames = [] := by
  cases frames : reader.frames with
  | nil => rfl
  | cons frame outer =>
      exact absurd ((innermostOpen_iff roles frames frame.opener).mpr rfl) (noScope frame.opener)

/-- What the body of the innermost frame holds is what the statements read leave held. -/
theorem holds_iff
    {reader : OutlineReader}
    (roles : reader.HasRoles)
    {frame : Frame}
    {outer : List Frame}
    (frames : reader.frames = frame :: outer)
    (direction : Direction)
    (binding : String) :
    frame.body.holds direction binding = true ↔
      ∃ port, StillHeld reader.statements direction port ∧ port.binding = binding := by
  have frameRoles := roles.frames frame (by simp [frames])
  rw [Outline.holds_iff frameRoles.body, statements_of_frames frames]
  simp only [stillHeld_of_opener frameRoles.opens (Outline.balanced_statements frameRoles.body)]

/-- A reader keeps suitable tags when its innermost scope gets a further part that has them. -/
theorem HasRoles.extend
    {reader : OutlineReader}
    (roles : reader.HasRoles)
    {frame : Frame}
    {outer : List Frame}
    (frames : reader.frames = frame :: outer)
    {part : Outline}
    (partRoles : part.HasRoles) :
    HasRoles { reader with frames := frame.extend part :: outer } where
  frames := by
    obtain ⟨frameRoles, outerRoles⟩ := List.forall_mem_cons.mp (frames ▸ roles.frames)
    exact List.forall_mem_cons.mpr ⟨frameRoles.extend partRoles, outerRoles⟩
  blocks := roles.blocks

/-- A further part of the innermost scope adds its statements at the end of those read. -/
theorem statements_extend
    {reader : OutlineReader}
    {frame : Frame}
    {outer : List Frame}
    (frames : reader.frames = frame :: outer)
    (part : Outline) :
    statements { reader with frames := frame.extend part :: outer } =
      reader.statements ++ part.statements := by
  simp [statements, frames, Frame.statements_extend]

/-- What a step that succeeds does to a reader, by the role of the statement. -/
inductive Steps
    (reader : OutlineReader)
    (statement : Statement) :
    OutlineReader → Prop where
  | opens
      (opens : statement.tag.role = .opens) :
      Steps reader statement (reader.openScope statement)
  | calls
      {frame : Frame}
      {outer : List Frame}
      (calls : statement.tag.role = .calls)
      (frames : reader.frames = frame :: outer) :
      Steps reader statement
        { reader with frames := frame.extend (.call statement .nil) :: outer }
  | declares
      {direction : Direction}
      {frame : Frame}
      {outer : List Frame}
      (declares : statement.tag.role = .declares direction)
      (frames : reader.frames = frame :: outer)
      (isFree : frame.body.holds direction statement.binding = false) :
      Steps reader statement
        { reader with frames := frame.extend (.port statement direction .nil) :: outer }
  | closesBlock
      {frame : Frame}
      (closes : statement.tag.role = .closes)
      (frames : reader.frames = [frame])
      (sameName : frame.opener.name = statement.name) :
      Steps reader statement {
        frames := []
        blocks := reader.blocks ++ [⟨frame.opener, frame.body, statement⟩] }
  | closesScope
      {frame parent : Frame}
      {outer : List Frame}
      (closes : statement.tag.role = .closes)
      (frames : reader.frames = frame :: parent :: outer)
      (sameName : frame.opener.name = statement.name) :
      Steps reader statement {
        frames := parent.extend (.scope frame.opener frame.body statement .nil) :: outer
        blocks := reader.blocks }
  | qualifies
      (qualifies : statement.tag.role = .qualifies) :
      Steps reader statement reader

/-- A step that succeeds does what the role of its statement says. -/
theorem steps_of_step
    {reader next : OutlineReader}
    {statement : Statement}
    (stepped : reader.step statement = .ok next) :
    reader.Steps statement next := by
  cases role : statement.tag.role with
  | opens =>
      simp only [step, role] at stepped
      cases stepped
      exact .opens role
  | closes =>
      simp only [step, role, closeScope] at stepped
      split at stepped
      · cases stepped
      · rename_i frame outer frames
        split at stepped
        · rename_i sameName
          split at stepped
          · cases stepped
            exact .closesBlock role frames sameName
          · cases stepped
            exact .closesScope role frames sameName
        · cases stepped
  | calls =>
      simp only [step, role, addCall] at stepped
      split at stepped
      · cases stepped
      · rename_i frames
        cases stepped
        exact .calls role frames
  | declares direction =>
      simp only [step, role, addPort] at stepped
      split at stepped
      · cases stepped
      · rename_i frames
        split at stepped
        · cases stepped
        · rename_i isFree
          cases stepped
          exact .declares role frames (Bool.eq_false_iff.mpr isFree)
  | qualifies =>
      simp only [step, role] at stepped
      cases stepped
      exact .qualifies role

/-- A step that succeeds adds the statement. -/
theorem step_ok
    {reader next : OutlineReader}
    (roles : reader.HasRoles)
    {statement : Statement}
    (primary : statement.tag.role ≠ .qualifies)
    (stepped : reader.step statement = .ok next) :
    next.HasRoles ∧ next.statements = reader.statements ++ [statement] := by
  cases steps_of_step stepped with
  | opens opens =>
      refine ⟨⟨?_, roles.blocks⟩, ?_⟩
      · exact List.forall_mem_cons.mpr ⟨⟨opens, trivial⟩, roles.frames⟩
      · simp [openScope, statements, Frame.statements, Outline.statements]
  | calls calls frames =>
      exact ⟨roles.extend frames ⟨calls, trivial⟩, statements_extend frames _⟩
  | declares declares frames _ =>
      exact ⟨roles.extend frames ⟨declares, trivial⟩, statements_extend frames _⟩
  | closesBlock closes frames _ =>
      obtain ⟨frameRoles, _⟩ := List.forall_mem_cons.mp (frames ▸ roles.frames)
      refine ⟨⟨by simp, ?_⟩, ?_⟩
      · exact List.forall_mem_append.mpr ⟨roles.blocks,
          List.forall_mem_singleton.mpr ⟨frameRoles.opens, frameRoles.body, closes⟩⟩
      · simp [statements, frames, Frame.statements, Block.statements]
  | @closesScope frame parent outer closes frames _ =>
      obtain ⟨frameRoles, restRoles⟩ := List.forall_mem_cons.mp (frames ▸ roles.frames)
      obtain ⟨parentRoles, outerRoles⟩ := List.forall_mem_cons.mp restRoles
      have scopeRoles : (Outline.scope frame.opener frame.body statement .nil).HasRoles :=
        ⟨frameRoles.opens, frameRoles.body, closes, trivial⟩
      refine ⟨⟨?_, roles.blocks⟩, ?_⟩
      · exact List.forall_mem_cons.mpr ⟨parentRoles.extend scopeRoles, outerRoles⟩
      · simp [statements, frames, Frame.extend, Frame.statements, Outline.statements]
  | qualifies qualifies => exact absurd qualifies primary

/-- A step that fails has met an offence. -/
theorem offence_of_step_error
    {reader : OutlineReader}
    (roles : reader.HasRoles)
    {statement : Statement}
    {fault : Fault}
    (failed : reader.step statement = .error fault) :
    fault.location = statement.location ∧
      Offence reader.statements statement fault.cause := by
  unfold step at failed
  split at failed
  · cases failed
  · rename_i closes
    unfold closeScope at failed
    split at failed
    · rename_i frames
      cases failed
      exact ⟨rfl, .unmatched closes (not_innermostOpen roles frames)⟩
    · rename_i frame outer frames
      have innermost := (innermostOpen_iff roles frames frame.opener).mpr rfl
      split at failed
      · split at failed <;> cases failed
      · rename_i differentName
        cases failed
        exact ⟨rfl, .mismatched closes innermost differentName⟩
  · rename_i calls
    unfold addCall at failed
    split at failed
    · rename_i frames
      cases failed
      exact ⟨rfl, .outside (Or.inl calls) (not_innermostOpen roles frames)⟩
    · cases failed
  · rename_i direction declares
    unfold addPort at failed
    split at failed
    · rename_i frames
      cases failed
      exact ⟨rfl, .outside (Or.inr ⟨direction, declares⟩) (not_innermostOpen roles frames)⟩
    · rename_i frame outer frames
      have innermost := (innermostOpen_iff roles frames frame.opener).mpr rfl
      split at failed
      · rename_i holds
        cases failed
        obtain ⟨port, held, sameBinding⟩ := (holds_iff roles frames direction _).mp holds
        exact ⟨rfl, .duplicate declares innermost held sameBinding⟩
      · cases failed
  · cases failed

/-- At an offence a step fails with its cause. -/
theorem step_of_offence
    {reader : OutlineReader}
    (roles : reader.HasRoles)
    {statement : Statement}
    {cause : Fault.Cause}
    (offence : Offence reader.statements statement cause) :
    reader.step statement = .error ⟨statement.location, cause⟩ := by
  cases offence with
  | unmatched closes noScope =>
      simp only [step, closes, closeScope, frames_eq_nil roles noScope]
  | mismatched closes innermost differentName =>
      obtain ⟨frame, outer, frames, rfl⟩ := frames_of_innermostOpen roles innermost
      simp only [step, closes, closeScope, frames, if_neg differentName]
  | outside needsScope noScope =>
      rcases needsScope with calls | ⟨direction, declares⟩
      · simp only [step, calls, addCall, frames_eq_nil roles noScope]
      · simp only [step, declares, addPort, frames_eq_nil roles noScope]
  | duplicate declares innermost held sameBinding =>
      obtain ⟨frame, outer, frames, rfl⟩ := frames_of_innermostOpen roles innermost
      have holds := (holds_iff roles frames _ _).mpr ⟨_, held, sameBinding⟩
      simp only [step, declares, addPort, frames, holds, if_true]

/-- A run reads fit statements to the end, or stops at the first offence. -/
theorem run_outcome
    {reader : OutlineReader}
    (roles : reader.HasRoles)
    (fit : Fit reader.statements)
    (statements : List Statement)
    (primaries : ∀ statement ∈ statements, statement.tag.role ≠ .qualifies) :
    (∃ final, reader.run statements = .ok final ∧
      final.HasRoles ∧
      final.statements = reader.statements ++ statements ∧
      Fit final.statements) ∨
    ∃ fault before statement after,
      reader.run statements = .error fault ∧
        statements = before ++ statement :: after ∧
        Fit (reader.statements ++ before) ∧
        fault.location = statement.location ∧
        Offence (reader.statements ++ before) statement fault.cause := by
  induction statements generalizing reader with
  | nil => exact Or.inl ⟨reader, rfl, roles, by simp, fit⟩
  | cons statement rest inductionHypothesis =>
      obtain ⟨primary, restPrimaries⟩ := List.forall_mem_cons.mp primaries
      cases stepped : reader.step statement with
      | error fault =>
          obtain ⟨sameLocation, offence⟩ := offence_of_step_error roles stepped
          refine Or.inr ⟨fault, [], statement, rest, ?_, rfl, ?_, sameLocation, ?_⟩
          · simp only [run, stepped]
          · rwa [List.append_nil]
          · rwa [List.append_nil]
      | ok next =>
          obtain ⟨nextRoles, nextStatements⟩ := step_ok roles primary stepped
          have inoffensive : ∀ cause, ¬ Offence reader.statements statement cause := by
            intro cause offence
            have failed := step_of_offence roles offence
            rw [stepped] at failed
            cases failed
          have nextFit : Fit next.statements := by
            rw [nextStatements]
            exact fit.concat inoffensive
          have continues : reader.run (statement :: rest) = next.run rest := by
            simp only [run, stepped]
          rw [continues]
          rcases inductionHypothesis nextRoles nextFit restPrimaries with
            ⟨final, ran, finalRoles, finalStatements, finalFit⟩ |
            ⟨fault, before, offender, after, failed, shape, beforeFit, sameLocation, offence⟩
          · refine Or.inl ⟨final, ran, finalRoles, ?_, finalFit⟩
            rw [finalStatements, nextStatements, List.append_assoc, List.singleton_append]
          · rw [nextStatements, List.append_assoc, List.singleton_append] at beforeFit offence
            exact Or.inr ⟨fault, statement :: before, offender, after, failed,
              by rw [shape]; rfl, beforeFit, sameLocation, offence⟩

end OutlineReader

namespace Block

/-- Statements are read as the blocks that they form, or else as their first fault. -/
theorem ofStatements_outcome
    {statements : List Statement}
    (primaries : ∀ statement ∈ statements, statement.tag.role ≠ .qualifies) :
    (∃ blocks,
      ofStatements statements = .ok blocks ∧
        (∀ block ∈ blocks, block.HasRoles) ∧
        blocks.flatMap Block.statements = statements ∧
        Fit statements ∧
        ∀ opener, ¬ InnermostOpen statements opener) ∨
    ∃ fault, ofStatements statements = .error fault ∧ FirstFault statements fault := by
  rcases OutlineReader.run_outcome OutlineReader.start_hasRoles fit_nil statements primaries with
    ⟨final, ran, roles, allRead, fit⟩ |
    ⟨fault, before, statement, after, failed, shape, fit, sameLocation, offence⟩
  · have isAll : final.statements = statements := allRead
    rw [isAll] at fit
    cases frames : final.frames with
    | nil =>
        refine Or.inl ⟨final.blocks, ?_, roles.blocks, ?_, fit, ?_⟩
        · simp only [ofStatements, ran, OutlineReader.finish, frames]
        · simpa [OutlineReader.statements, frames] using isAll
        · rw [← isAll]
          exact OutlineReader.not_innermostOpen roles frames
    | cons frame outer =>
        refine Or.inr ⟨⟨frame.opener.location, .unclosedScope frame.opener.name⟩, ?_, ?_⟩
        · simp only [ofStatements, ran, OutlineReader.finish, frames]
        · apply FirstFault.unclosed fit
          rw [← isAll]
          exact (OutlineReader.innermostOpen_iff roles frames _).mpr rfl
  · refine Or.inr ⟨fault, ?_, ?_⟩
    · simp only [ofStatements, failed]
    · obtain ⟨location, cause⟩ := fault
      cases (sameLocation : location = statement.location)
      exact .offence shape fit offence

end Block

end Flowmark
