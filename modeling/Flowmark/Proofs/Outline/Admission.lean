import Flowmark.Proofs.Outline.Acceptance

namespace Flowmark

/-!
# Admitted outlines

An outline is admitted after the part of a body before it if its statements are read there without a
fault.  This does not depend on the scopes around the body, so a list of statements is read as some
blocks exactly if it is what admitted blocks consist of.
-/

namespace Outline

/-- Whether an outline is read without a fault after the part of the body before it. -/
def AdmittedAfter : (outline : Outline) → (before : Outline) → Prop
  | nil, _ => True
  | port declaration direction rest, before =>
      declaration.tag.role = .declares direction ∧
        before.holds direction declaration.binding = false ∧
        rest.AdmittedAfter (before ++ .port declaration direction .nil)
  | call site rest, before =>
      site.tag.role = .calls ∧ rest.AdmittedAfter (before ++ .call site .nil)
  | scope opener body closer rest, before =>
      opener.tag.role = .opens ∧
        body.AdmittedAfter .nil ∧
        closer.tag.role = .closes ∧
        opener.name = closer.name ∧
        rest.AdmittedAfter (before ++ .scope opener body closer .nil)

/-- Two parts are admitted where the second is admitted behind the first. -/
theorem AdmittedAfter.append
    {before first second : Outline}
    (firstAdmitted : first.AdmittedAfter before)
    (secondAdmitted : second.AdmittedAfter (before ++ first)) :
    (first ++ second).AdmittedAfter before := by
  induction first generalizing before with
  | nil => rwa [append_nil] at secondAdmitted
  | port declaration direction rest inductionHypothesis =>
      obtain ⟨declares, isFree, restAdmitted⟩ := firstAdmitted
      refine ⟨declares, isFree, inductionHypothesis restAdmitted ?_⟩
      rwa [append_assoc]
  | call site rest inductionHypothesis =>
      obtain ⟨calls, restAdmitted⟩ := firstAdmitted
      refine ⟨calls, inductionHypothesis restAdmitted ?_⟩
      rwa [append_assoc]
  | scope opener body closer rest _ inductionHypothesis =>
      obtain ⟨opens, bodyAdmitted, closes, sameName, restAdmitted⟩ := firstAdmitted
      refine ⟨opens, bodyAdmitted, closes, sameName, inductionHypothesis restAdmitted ?_⟩
      rwa [append_assoc]

end Outline

/-- Whether a block is read without a fault. -/
structure Block.IsAdmitted
    (block : Block) :
    Prop where
  opens : block.opener.tag.role = .opens
  body : block.body.AdmittedAfter .nil
  closes : block.closer.tag.role = .closes
  sameName : block.opener.name = block.closer.name

/-- Whether an open scope is read without a fault. -/
structure Frame.IsAdmitted
    (frame : Frame) :
    Prop where
  opens : frame.opener.tag.role = .opens
  body : frame.body.AdmittedAfter .nil

/-- An admitted scope is admitted with a further part that is admitted behind its body. -/
theorem Frame.IsAdmitted.extend
    {frame : Frame}
    {part : Outline}
    (admitted : frame.IsAdmitted)
    (partAdmitted : part.AdmittedAfter frame.body) :
    (frame.extend part).IsAdmitted where
  opens := admitted.opens
  body := admitted.body.append partAdmitted

namespace OutlineReader

/-! ## What is read is admitted -/

/-- What a statement that is read without a fault does to a reader. -/
inductive Reads
    (reader : OutlineReader)
    (statement : Statement) :
    OutlineReader → Prop where
  | opens
      (opens : statement.tag.role = .opens) :
      Reads reader statement (reader.openScope statement)
  | adds
      {frame : Frame}
      {outer : List Frame}
      {part : Outline}
      (frames : reader.frames = frame :: outer)
      (admitted : part.AdmittedAfter frame.body) :
      Reads reader statement { reader with frames := frame.extend part :: outer }
  | closesBlock
      {frame : Frame}
      (frames : reader.frames = [frame])
      (closes : statement.tag.role = .closes)
      (sameName : frame.opener.name = statement.name) :
      Reads reader statement {
        frames := []
        blocks := reader.blocks ++ [⟨frame.opener, frame.body, statement⟩] }
  | closesScope
      {frame parent : Frame}
      {outer : List Frame}
      (frames : reader.frames = frame :: parent :: outer)
      (closes : statement.tag.role = .closes)
      (sameName : frame.opener.name = statement.name) :
      Reads reader statement {
        frames := parent.extend (.scope frame.opener frame.body statement .nil) :: outer
        blocks := reader.blocks }
  | passes :
      Reads reader statement reader

/-- A statement that is read without a fault does to the reader what its role says. -/
theorem reads_of_step
    {reader next : OutlineReader}
    {statement : Statement}
    (stepped : reader.step statement = .ok next) :
    reader.Reads statement next := by
  cases steps_of_step stepped with
  | opens opens => exact .opens opens
  | calls calls frames => exact .adds frames ⟨calls, trivial⟩
  | declares declares frames isFree => exact .adds frames ⟨declares, isFree, trivial⟩
  | closesBlock closes frames sameName => exact .closesBlock frames closes sameName
  | closesScope closes frames sameName => exact .closesScope frames closes sameName
  | qualifies _ => exact .passes

/-- What every statement that is read keeps holds after a run if it held before. -/
theorem run_keeps
    {keeps : OutlineReader → Prop}
    (step : ∀ reader statement next, keeps reader → reader.Reads statement next → keeps next)
    {reader final : OutlineReader}
    {statements : List Statement}
    (holds : keeps reader)
    (ran : reader.run statements = .ok final) :
    keeps final := by
  induction statements generalizing reader with
  | nil =>
      cases ran
      exact holds
  | cons statement statements inductionHypothesis =>
      rw [run] at ran
      split at ran
      · cases ran
      · rename_i next stepped
        exact inductionHypothesis (step _ _ _ holds (reads_of_step stepped)) ran

/-- Whether the blocks and the open scopes of a reader are admitted. -/
structure IsAdmitted
    (reader : OutlineReader) :
    Prop where
  frames : ∀ frame ∈ reader.frames, frame.IsAdmitted
  blocks : ∀ block ∈ reader.blocks, block.IsAdmitted

/-- Before any statement nothing is there that had to be admitted. -/
theorem isAdmitted_start :
    start.IsAdmitted where
  frames := by simp [start]
  blocks := by simp [start]

/-- A statement that is read leaves an admitted reader admitted. -/
theorem IsAdmitted.reads
    {reader next : OutlineReader}
    (admitted : reader.IsAdmitted)
    {statement : Statement}
    (isRead : reader.Reads statement next) :
    next.IsAdmitted := by
  rcases admitted with ⟨framesAdmitted, blocksAdmitted⟩
  cases isRead with
  | opens opens =>
      exact ⟨List.forall_mem_cons.mpr ⟨⟨opens, trivial⟩, framesAdmitted⟩, blocksAdmitted⟩
  | adds frames partAdmitted =>
      obtain ⟨frameAdmitted, outerAdmitted⟩ := List.forall_mem_cons.mp (frames ▸ framesAdmitted)
      exact ⟨List.forall_mem_cons.mpr ⟨frameAdmitted.extend partAdmitted, outerAdmitted⟩,
        blocksAdmitted⟩
  | @closesBlock frame frames closes sameName =>
      obtain ⟨frameAdmitted, _⟩ := List.forall_mem_cons.mp (frames ▸ framesAdmitted)
      have blockAdmitted : Block.IsAdmitted ⟨frame.opener, frame.body, statement⟩ :=
        ⟨frameAdmitted.opens, frameAdmitted.body, closes, sameName⟩
      exact ⟨by simp, List.forall_mem_append.mpr
        ⟨blocksAdmitted, List.forall_mem_singleton.mpr blockAdmitted⟩⟩
  | @closesScope frame parent outer frames closes sameName =>
      obtain ⟨frameAdmitted, restAdmitted⟩ := List.forall_mem_cons.mp (frames ▸ framesAdmitted)
      obtain ⟨parentAdmitted, outerAdmitted⟩ := List.forall_mem_cons.mp restAdmitted
      have scopeAdmitted :
          (Outline.scope frame.opener frame.body statement .nil).AdmittedAfter parent.body :=
        ⟨frameAdmitted.opens, frameAdmitted.body, closes, sameName, trivial⟩
      exact ⟨List.forall_mem_cons.mpr ⟨parentAdmitted.extend scopeAdmitted, outerAdmitted⟩,
        blocksAdmitted⟩
  | passes => exact ⟨framesAdmitted, blocksAdmitted⟩

/-! ## What is admitted is read -/

/-- A run over two lists is a run over the first and, unless it fails, over the second. -/
theorem run_append
    (reader : OutlineReader)
    (first second : List Statement) :
    reader.run (first ++ second) =
      match reader.run first with
      | .error fault => .error fault
      | .ok next => next.run second := by
  induction first generalizing reader with
  | nil => rfl
  | cons statement first inductionHypothesis =>
      rw [List.cons_append, run, run]
      cases reader.step statement with
      | error fault => rfl
      | ok next => exact inductionHypothesis next

/-- An admitted outline is added to the body of the innermost scope, and nothing else changes. -/
theorem run_of_admittedAfter
    {outline : Outline}
    {frame : Frame}
    (admitted : outline.AdmittedAfter frame.body)
    (outer : List Frame)
    (blocks : List Block) :
    run ⟨frame :: outer, blocks⟩ outline.statements =
      .ok ⟨frame.extend outline :: outer, blocks⟩ := by
  induction outline generalizing frame outer with
  | nil => simp [Outline.statements, run, Frame.extend]
  | port declaration direction rest inductionHypothesis =>
      obtain ⟨declares, isFree, restAdmitted⟩ := admitted
      have restRead := @inductionHypothesis
        (frame.extend (.port declaration direction .nil)) restAdmitted outer
      simp only [Outline.statements, run, step, declares, addPort, isFree, Bool.false_eq_true,
        if_false, restRead]
      simp [Frame.extend, Outline.append_assoc]
  | call site rest inductionHypothesis =>
      obtain ⟨calls, restAdmitted⟩ := admitted
      have restRead := @inductionHypothesis (frame.extend (.call site .nil)) restAdmitted outer
      simp only [Outline.statements, run, step, calls, addCall, restRead]
      simp [Frame.extend, Outline.append_assoc]
  | scope opener body closer rest bodyHypothesis inductionHypothesis =>
      obtain ⟨opens, bodyAdmitted, closes, sameName, restAdmitted⟩ := admitted
      have bodyRead := @bodyHypothesis ⟨opener, .nil⟩ bodyAdmitted (frame :: outer)
      have restRead := @inductionHypothesis
        (frame.extend (.scope opener body closer .nil)) restAdmitted outer
      simp only [Outline.statements, run, step, opens, openScope, run_append, bodyRead, closes,
        closeScope, Frame.extend, Outline.nil_append, sameName, if_true]
      rw [Frame.extend] at restRead
      simp [restRead, Frame.extend, Outline.append_assoc]

/-- An admitted block is added to the body of the innermost scope, or else to the blocks. -/
def addBlock
    (reader : OutlineReader)
    (block : Block) :
    OutlineReader :=
  match reader.frames with
  | [] => { frames := [], blocks := reader.blocks ++ [block] }
  | frame :: outer => {
      frames := frame.extend (.scope block.opener block.body block.closer .nil) :: outer
      blocks := reader.blocks }

/-- An admitted block is read as that block. -/
theorem run_of_isAdmitted
    {block : Block}
    (admitted : block.IsAdmitted)
    (reader : OutlineReader) :
    reader.run block.statements = .ok (reader.addBlock block) := by
  have bodyRead := @run_of_admittedAfter block.body ⟨block.opener, .nil⟩ admitted.body
    reader.frames reader.blocks
  simp only [Block.statements, run, step, admitted.opens, openScope, run_append, bodyRead,
    admitted.closes, closeScope, Frame.extend, Outline.nil_append, admitted.sameName, if_true,
    addBlock]
  cases reader.frames <;> rfl

/-- Admitted blocks are read as those blocks, one after another. -/
theorem run_of_allAdmitted
    {blocks : List Block}
    (admitted : ∀ block ∈ blocks, block.IsAdmitted)
    (earlier : List Block) :
    run ⟨[], earlier⟩ (blocks.flatMap Block.statements) = .ok ⟨[], earlier ++ blocks⟩ := by
  induction blocks generalizing earlier with
  | nil => simp [run]
  | cons block blocks inductionHypothesis =>
      obtain ⟨blockAdmitted, restAdmitted⟩ := List.forall_mem_cons.mp admitted
      rw [List.flatMap_cons, run_append, run_of_isAdmitted blockAdmitted]
      simp only [addBlock, inductionHypothesis restAdmitted, List.append_assoc,
        List.singleton_append]

end OutlineReader

namespace Block

/-- Statements are read as given blocks exactly if these are admitted and consist of them. -/
theorem ofStatements_eq_ok_iff
    {statements : List Statement}
    (primaries : ∀ statement ∈ statements, statement.tag.role ≠ .qualifies)
    (blocks : List Block) :
    ofStatements statements = .ok blocks ↔
      (∀ block ∈ blocks, block.IsAdmitted) ∧ blocks.flatMap Block.statements = statements := by
  constructor
  · intro isRead
    refine ⟨?_, ?_⟩
    · unfold ofStatements at isRead
      split at isRead
      · cases isRead
      · rename_i reader ran
        have admitted := OutlineReader.run_keeps
          (fun _ _ _ admitted isRead => admitted.reads isRead) OutlineReader.isAdmitted_start ran
        unfold OutlineReader.finish at isRead
        split at isRead
        · cases isRead
          exact admitted.blocks
        · cases isRead
    · rcases ofStatements_outcome primaries with ⟨others, isRead', _, consistOf, _⟩ |
        ⟨fault, failed, _⟩
      · rw [isRead] at isRead'
        cases isRead'
        exact consistOf
      · rw [isRead] at failed
        cases failed
  · rintro ⟨admitted, rfl⟩
    have ran := OutlineReader.run_of_allAdmitted admitted []
    unfold ofStatements
    rw [show OutlineReader.start = ⟨[], []⟩ from rfl, ran]
    rfl

/-- Statements that are read after others form the blocks that they form alone. -/
theorem ofStatements_append
    {first second : List Statement}
    (firstPrimaries : ∀ statement ∈ first, statement.tag.role ≠ .qualifies)
    (secondPrimaries : ∀ statement ∈ second, statement.tag.role ≠ .qualifies)
    {blocks blocks' : List Block}
    (firstRead : ofStatements first = .ok blocks)
    (secondRead : ofStatements second = .ok blocks') :
    ofStatements (first ++ second) = .ok (blocks ++ blocks') := by
  obtain ⟨firstAdmitted, firstShape⟩ := (ofStatements_eq_ok_iff firstPrimaries blocks).mp firstRead
  obtain ⟨secondAdmitted, secondShape⟩ :=
    (ofStatements_eq_ok_iff secondPrimaries blocks').mp secondRead
  have primaries := List.forall_mem_append.mpr ⟨firstPrimaries, secondPrimaries⟩
  refine (ofStatements_eq_ok_iff primaries (blocks ++ blocks')).mpr ⟨?_, ?_⟩
  · exact List.forall_mem_append.mpr ⟨firstAdmitted, secondAdmitted⟩
  · rw [List.flatMap_append, firstShape, secondShape]

end Block

end Flowmark
