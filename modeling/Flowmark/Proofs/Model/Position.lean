import Flowmark.Model
import Flowmark.Proofs.Outline.Admission

namespace Flowmark

/-!
# Positions of scopes

A scope has a position in the model: its parent and the sizes before it.  While statements are read,
the next scope would stand at a position that is known already, and it stays there whatever is read
after it.
-/

/-- Where a scope stands: its parent and the sizes before it. -/
structure Position where
  parent : Option ProgramId
  before : Sizes
  deriving Repr, DecidableEq

/-- The records of a block at a position. -/
def Block.assembleAt
    (block : Block)
    (position : Position) :
    Assembled :=
  Assembled.ofScope position.parent position.before block.opener block.closer
    (block.body.assemble position.before.programs position.before.addProgram [])

/-- The program of a block at a position. -/
def Block.program
    (block : Block)
    (position : Position) :
    Program :=
  (block.assembleAt position).records.programs.head (List.cons_ne_nil _ _)

/-- One port alone. -/
def Records.ofPort
    (port : Port) :
    Records :=
  empty.consPort port

/-- One program alone. -/
def Records.ofProgram
    (program : Program) :
    Records :=
  empty.consProgram program

namespace Level

/-- A port in front comes first among the records. -/
theorem records_consPort
    (port : Port)
    (isHeld : Bool)
    (level : Level) :
    (level.consPort port isHeld).records = .ofPort port ++ level.records :=
  rfl

/-- A member in front comes with its records first. -/
theorem records_consMember
    (records : Records)
    (member : Member)
    (level : Level) :
    (level.consMember records member).records = records ++ level.records :=
  rfl

/-- A port in front is counted before the rest of the body. -/
theorem add_sizes_consPort
    (before : Sizes)
    (port : Port)
    (isHeld : Bool)
    (level : Level) :
    before + (level.consPort port isHeld).records.sizes = before.addPort + level.records.sizes := by
  rw [records_consPort, Records.sizes_append, ← Sizes.add_assoc]
  rfl

/-- A member in front is counted with its records before the rest of the body. -/
theorem add_sizes_consMember
    (before : Sizes)
    (records : Records)
    (member : Member)
    (level : Level) :
    before + (level.consMember records member).records.sizes =
      before + records.sizes + level.records.sizes := by
  rw [records_consMember, Records.sizes_append, Sizes.add_assoc]

end Level

namespace Outline

/-- A scope stands at a position somewhere in a body, given the scope around it and the sizes before
the body. -/
inductive Contains
    (position : Position)
    (block : Block) :
    (scope : ProgramId) → (before : Sizes) → Outline → Prop where
  | here
      {scope : ProgramId}
      {before : Sizes}
      {rest : Outline}
      (isPosition : position = ⟨some scope, before⟩) :
      Contains position block scope before (.scope block.opener block.body block.closer rest)
  | port
      {scope : ProgramId}
      {before : Sizes}
      {declaration : Statement}
      {direction : Direction}
      {rest : Outline}
      (inRest : Contains position block scope before.addPort rest) :
      Contains position block scope before (.port declaration direction rest)
  | call
      {scope : ProgramId}
      {before : Sizes}
      {site : Statement}
      {rest : Outline}
      (inRest : Contains position block scope before.addProgram rest) :
      Contains position block scope before (.call site rest)
  | inside
      {scope : ProgramId}
      {before : Sizes}
      {opener closer : Statement}
      {body rest : Outline}
      (inBody : Contains position block before.programs before.addProgram body) :
      Contains position block scope before (.scope opener body closer rest)
  | after
      {scope : ProgramId}
      {before : Sizes}
      {opener closer : Statement}
      {body rest : Outline}
      (inRest : Contains position block scope
        (before +
          (Block.assembleAt ⟨opener, body, closer⟩ ⟨some scope, before⟩).records.sizes) rest) :
      Contains position block scope before (.scope opener body closer rest)

variable {position : Position} {block : Block} {scope : ProgramId} {before : Sizes}

/-- A scope stays where it is when the body goes on. -/
theorem Contains.append
    {outline : Outline}
    (contains : outline.Contains position block scope before)
    (later : Outline) :
    (outline ++ later).Contains position block scope before := by
  induction contains with
  | here isPosition => exact .here isPosition
  | port _ inductionHypothesis => exact .port inductionHypothesis
  | call _ inductionHypothesis => exact .call inductionHypothesis
  | inside inBody _ => exact .inside inBody
  | after _ inductionHypothesis => exact .after inductionHypothesis

/-- A scope behind a part of the body stands behind the sizes of that part. -/
theorem Contains.behind
    {earlier outline : Outline}
    (taken : List Port)
    (contains : outline.Contains position block scope
      (before + (earlier.assemble scope before taken).records.sizes)) :
    (earlier ++ outline).Contains position block scope before := by
  induction earlier generalizing before taken with
  | nil => exact contains
  | port declaration direction rest inductionHypothesis =>
      rw [assemble] at contains
      split at contains
      · rw [Level.add_sizes_consPort] at contains
        exact .port (inductionHypothesis _ contains)
      · rw [Level.add_sizes_consPort] at contains
        exact .port (inductionHypothesis _ contains)
  | call site rest inductionHypothesis =>
      rw [assemble, Level.add_sizes_consMember] at contains
      exact .call (inductionHypothesis _ contains)
  | scope opener body closer rest _ inductionHypothesis =>
      rw [assemble, Level.add_sizes_consMember] at contains
      exact .after (inductionHypothesis _ contains)

/-- No scope in a body stands before the body. -/
theorem Contains.programs_le
    {outline : Outline}
    (contains : outline.Contains position block scope before) :
    before.programs ≤ position.before.programs := by
  induction contains with
  | here isPosition => simp [isPosition]
  | port _ inductionHypothesis => exact inductionHypothesis
  | call _ inductionHypothesis => exact Nat.le_of_succ_le inductionHypothesis
  | inside _ inductionHypothesis => exact Nat.le_of_succ_le inductionHypothesis
  | after _ inductionHypothesis =>
      exact Nat.le_trans (Nat.le_add_right _ _) inductionHypothesis

/-- A call that comes before a scope has a smaller number. -/
theorem Contains.programs_lt
    {outline : Outline}
    (contains : outline.Contains position block scope before)
    (callAhead : outline.callAhead = true) :
    before.programs < position.before.programs := by
  induction contains with
  | here _ => cases callAhead
  | port _ inductionHypothesis => exact inductionHypothesis callAhead
  | call inRest _ => exact inRest.programs_le
  | inside _ _ => cases callAhead
  | after _ _ => cases callAhead

/-- The statements of a scope in an admitted body are those of an admitted block. -/
theorem Contains.statements
    {outline earlier : Outline}
    (contains : outline.Contains position block scope before)
    (admitted : outline.AdmittedAfter earlier) :
    block.IsAdmitted ∧
      ∃ outside behind, outline.statements = outside ++ (block.statements ++ behind) := by
  induction contains generalizing earlier with
  | @here scope before rest _ =>
      obtain ⟨opens, bodyAdmitted, closes, sameName, _⟩ := admitted
      refine ⟨⟨opens, bodyAdmitted, closes, sameName⟩, [], rest.statements, ?_⟩
      simp [Outline.statements, Block.statements]
  | @port scope before declaration direction rest _ inductionHypothesis =>
      obtain ⟨_, _, restAdmitted⟩ := admitted
      obtain ⟨blockAdmitted, outside, behind, shape⟩ := inductionHypothesis restAdmitted
      exact ⟨blockAdmitted, declaration :: outside, behind, by rw [Outline.statements, shape]; rfl⟩
  | @call scope before site rest _ inductionHypothesis =>
      obtain ⟨_, restAdmitted⟩ := admitted
      obtain ⟨blockAdmitted, outside, behind, shape⟩ := inductionHypothesis restAdmitted
      exact ⟨blockAdmitted, site :: outside, behind, by rw [Outline.statements, shape]; rfl⟩
  | @inside scope before opener closer body rest _ inductionHypothesis =>
      obtain ⟨_, bodyAdmitted, _⟩ := admitted
      obtain ⟨blockAdmitted, outside, behind, shape⟩ := inductionHypothesis bodyAdmitted
      refine ⟨blockAdmitted, opener :: outside, behind ++ closer :: rest.statements, ?_⟩
      simp [Outline.statements, shape]
  | @after scope before opener closer body rest _ inductionHypothesis =>
      obtain ⟨_, _, _, _, restAdmitted⟩ := admitted
      obtain ⟨blockAdmitted, outside, behind, shape⟩ := inductionHypothesis restAdmitted
      refine ⟨blockAdmitted, opener :: (body.statements ++ closer :: outside), behind, ?_⟩
      simp [Outline.statements, shape]

/-- A program of a body is that of a call, or that of a scope at some position. -/
theorem exists_contains
    (outline : Outline)
    (scope : ProgramId)
    (before : Sizes)
    (taken : List Port)
    {program : Program}
    (isProgram : program ∈ (outline.assemble scope before taken).records.programs)
    (isScope : program.kind ≠ .invocation) :
    ∃ position block,
      outline.Contains position block scope before ∧
        block.program position = program := by
  induction outline generalizing scope before taken with
  | nil => cases isProgram
  | port declaration direction rest inductionHypothesis =>
      rw [assemble] at isProgram
      split at isProgram
      · obtain ⟨position, block, inRest, isHead⟩ := inductionHypothesis _ _ _ isProgram
        exact ⟨position, block, .port inRest, isHead⟩
      · obtain ⟨position, block, inRest, isHead⟩ := inductionHypothesis _ _ _ isProgram
        exact ⟨position, block, .port inRest, isHead⟩
  | call site rest inductionHypothesis =>
      rcases List.mem_append.mp isProgram with isCall | isLater
      · rw [List.mem_singleton.mp isCall] at isScope
        exact absurd rfl isScope
      · obtain ⟨position, block, inRest, isHead⟩ := inductionHypothesis _ _ _ isLater
        exact ⟨position, block, .call inRest, isHead⟩
  | scope opener body closer rest bodyHypothesis inductionHypothesis =>
      rcases List.mem_append.mp isProgram with isInner | isLater
      · rcases List.mem_cons.mp isInner with rfl | inBody
        · exact ⟨⟨some scope, before⟩, ⟨opener, body, closer⟩, .here rfl, rfl⟩
        · obtain ⟨position, block, contains, isHead⟩ := bodyHypothesis _ _ _ inBody
          exact ⟨position, block, .inside contains, isHead⟩
      · obtain ⟨position, block, inRest, isHead⟩ := inductionHypothesis _ _ _ isLater
        exact ⟨position, block, .after inRest, isHead⟩

end Outline

namespace Block

/-- A scope stands at a position somewhere in a list of blocks, given the sizes before it. -/
inductive Contained
    (position : Position)
    (block : Block) :
    (before : Sizes) → List Block → Prop where
  | here
      {before : Sizes}
      {rest : List Block}
      (isPosition : position = ⟨none, before⟩) :
      Contained position block before (block :: rest)
  | inside
      {before : Sizes}
      {outer : Block}
      {rest : List Block}
      (inBody : outer.body.Contains position block before.programs before.addProgram) :
      Contained position block before (outer :: rest)
  | after
      {before : Sizes}
      {outer : Block}
      {rest : List Block}
      (inRest : Contained position block (before + (outer.assemble before).records.sizes) rest) :
      Contained position block before (outer :: rest)

/-- The records of blocks together. -/
def records
    (before : Sizes)
    (blocks : List Block) :
    Records :=
  .join ((assembleAll before blocks).map Assembled.records)

variable {position : Position} {block : Block}

/-- A scope stays where it is when further blocks follow. -/
theorem Contained.append
    {before : Sizes}
    {blocks : List Block}
    (contained : Contained position block before blocks)
    (later : List Block) :
    Contained position block before (blocks ++ later) := by
  induction contained with
  | here isPosition => exact .here isPosition
  | inside inBody => exact .inside inBody
  | after _ inductionHypothesis => exact .after inductionHypothesis

/-- A scope behind earlier blocks stands behind the sizes of these. -/
theorem Contained.behind
    {before : Sizes}
    {earlier blocks : List Block}
    (contained : Contained position block
      (before + (records before earlier).sizes) blocks) :
    Contained position block before (earlier ++ blocks) := by
  induction earlier generalizing before with
  | nil => exact contained
  | cons outer earlier inductionHypothesis =>
      refine .after (inductionHypothesis ?_)
      simpa [records, assembleAll, Records.join, Sizes.add_assoc] using contained

/-- A scope behind all earlier blocks of a model stands behind the sizes of these. -/
theorem Contained.behind_all
    {earlier blocks : List Block}
    (contained : Contained position block (records .zero earlier).sizes blocks) :
    Contained position block .zero (earlier ++ blocks) :=
  .behind (by rwa [Sizes.zero_add])

/-- The statements of a scope in admitted blocks are those of an admitted block. -/
theorem Contained.statements
    {before : Sizes}
    {blocks : List Block}
    (contained : Contained position block before blocks)
    (admitted : ∀ outer ∈ blocks, outer.IsAdmitted) :
    block.IsAdmitted ∧
      ∃ outside behind,
        blocks.flatMap Block.statements = outside ++ (block.statements ++ behind) := by
  induction contained with
  | @here before rest _ =>
      obtain ⟨blockAdmitted, _⟩ := List.forall_mem_cons.mp admitted
      exact ⟨blockAdmitted, [], rest.flatMap Block.statements, rfl⟩
  | @inside before outer rest inBody =>
      obtain ⟨outerAdmitted, _⟩ := List.forall_mem_cons.mp admitted
      obtain ⟨blockAdmitted, outside, behind, shape⟩ := inBody.statements outerAdmitted.body
      refine ⟨blockAdmitted, outer.opener :: outside,
        behind ++ outer.closer :: rest.flatMap Block.statements, ?_⟩
      simp [Block.statements, shape]
  | @after before outer rest _ inductionHypothesis =>
      obtain ⟨_, restAdmitted⟩ := List.forall_mem_cons.mp admitted
      obtain ⟨blockAdmitted, outside, behind, shape⟩ := inductionHypothesis restAdmitted
      refine ⟨blockAdmitted, outer.statements ++ outside, behind, ?_⟩
      simp [shape]

/-- A program of blocks that is no call is that of a scope at some position. -/
theorem exists_contained
    (blocks : List Block)
    (before : Sizes)
    {program : Program}
    (isProgram : program ∈ (records before blocks).programs)
    (isScope : program.kind ≠ .invocation) :
    ∃ position block,
      Contained position block before blocks ∧
        block.program position = program := by
  induction blocks generalizing before with
  | nil => cases isProgram
  | cons outer blocks inductionHypothesis =>
      rcases List.mem_append.mp isProgram with isInner | isLater
      · rcases List.mem_cons.mp isInner with rfl | inBody
        · exact ⟨⟨none, before⟩, outer, .here rfl, rfl⟩
        · obtain ⟨position, block, inBody, isHead⟩ :=
            Outline.exists_contains outer.body _ _ _ inBody isScope
          exact ⟨position, block, .inside inBody, isHead⟩
      · obtain ⟨position, block, inRest, isHead⟩ := inductionHypothesis _ isLater
        exact ⟨position, block, .after inRest, isHead⟩

end Block

/-! ## Positions while statements are read -/

namespace Frame

/-- The position at which the next scope would stand in open scopes, given the sizes before them. -/
def position
    (base : Sizes) :
    List Frame → Position
  | [] => ⟨none, base⟩
  | frame :: outer =>
      let around := (position base outer).before
      { parent := some around.programs
        before := around.addProgram +
          (frame.body.assemble around.programs around.addProgram []).records.sizes }

/-- A scope stands at a position in the body of one of some open scopes. -/
inductive Contains
    (position : Position)
    (block : Block)
    (base : Sizes) :
    List Frame → Prop where
  | here
      {frame : Frame}
      {outer : List Frame}
      (inBody : frame.body.Contains position block (Frame.position base outer).before.programs
        (Frame.position base outer).before.addProgram) :
      Contains position block base (frame :: outer)
  | outside
      {frame : Frame}
      {outer : List Frame}
      (inOuter : Contains position block base outer) :
      Contains position block base (frame :: outer)

/-- A scope stays where it is when the body of the innermost scope goes on. -/
theorem Contains.extend
    {position : Position}
    {block : Block}
    {base : Sizes}
    {frame : Frame}
    {outer : List Frame}
    (contains : Contains position block base (frame :: outer))
    (part : Outline) :
    Contains position block base (frame.extend part :: outer) := by
  cases contains with
  | here inBody => exact .here (inBody.append part)
  | outside inOuter => exact .outside inOuter

end Frame

namespace OutlineReader

/-- The position at which the next scope would stand. -/
def position
    (reader : OutlineReader) :
    Position :=
  Frame.position (Block.records .zero reader.blocks).sizes reader.frames

/-- A scope stands at a position in one of the blocks or in one of the open scopes. -/
inductive Contains
    (position : Position)
    (block : Block)
    (reader : OutlineReader) :
    Prop where
  | closed
      (inBlocks : Block.Contained position block .zero reader.blocks)
  | isOpen
      (inFrames :
        Frame.Contains position block (Block.records .zero reader.blocks).sizes reader.frames)

variable {position : Position} {block : Block}

/-- A block that is read comes to stand at the position that the reader has for it. -/
theorem contains_addBlock
    (reader : OutlineReader)
    (block : Block) :
    (reader.addBlock block).Contains reader.position block := by
  rcases reader with ⟨frames, blocks⟩
  cases frames with
  | nil => exact .closed (.behind_all (.here rfl))
  | cons frame outer => exact .isOpen (.here (.behind [] (.here rfl)))

/-- A scope stays where it is whatever statement is read next. -/
theorem Contains.reads
    {reader next : OutlineReader}
    (contains : reader.Contains position block)
    {statement : Statement}
    (isRead : reader.Reads statement next) :
    next.Contains position block := by
  cases contains with
  | closed inBlocks =>
      cases isRead with
      | opens _ => exact .closed inBlocks
      | adds _ _ => exact .closed inBlocks
      | closesBlock _ _ _ => exact .closed (inBlocks.append _)
      | closesScope _ _ _ => exact .closed inBlocks
      | passes => exact .closed inBlocks
  | isOpen inFrames =>
      cases isRead with
      | opens _ => exact .isOpen (.outside inFrames)
      | adds frames _ =>
          rw [frames] at inFrames
          exact .isOpen (inFrames.extend _)
      | closesBlock frames _ _ =>
          rw [frames] at inFrames
          cases inFrames with
          | here inBody => exact .closed (.behind_all (.inside inBody))
          | outside inOuter => cases inOuter
      | closesScope frames _ _ =>
          rw [frames] at inFrames
          cases inFrames with
          | here inBody => exact .isOpen (.here (.behind [] (.inside inBody)))
          | outside inOuter => exact .isOpen (inOuter.extend _)
      | passes => exact .isOpen inFrames

end OutlineReader

/-- A block among statements stands at the position that the statements before it determine. -/
theorem Block.contained_of_ofStatements
    {outside behind : List Statement}
    {block : Block}
    (admitted : block.IsAdmitted)
    {blocks : List Block}
    (isRead : ofStatements (outside ++ (block.statements ++ behind)) = .ok blocks) :
    ∃ reader,
      OutlineReader.start.run outside = .ok reader ∧
        Contained reader.position block .zero blocks := by
  unfold ofStatements at isRead
  rw [OutlineReader.run_append] at isRead
  cases ranOutside : OutlineReader.start.run outside with
  | error fault => simp [ranOutside] at isRead
  | ok reader =>
      simp only [ranOutside, OutlineReader.run_append,
        OutlineReader.run_of_isAdmitted admitted reader] at isRead
      refine ⟨reader, rfl, ?_⟩
      split at isRead
      · cases isRead
      · rename_i final ran
        have contains := OutlineReader.run_keeps
          (fun _ _ _ contains isRead => contains.reads isRead)
          (OutlineReader.contains_addBlock reader block) ran
        rcases final with ⟨frames, finalBlocks⟩
        cases frames with
        | cons frame outer => cases isRead
        | nil =>
            cases isRead
            cases contains with
            | closed inBlocks => exact inBlocks
            | isOpen inFrames => cases inFrames

end Flowmark
