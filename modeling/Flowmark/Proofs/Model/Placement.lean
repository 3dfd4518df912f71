import Flowmark.Model
import Flowmark.Proofs.Markup.Placement
import Flowmark.Proofs.Outline.Relabeling

namespace Flowmark

/-!
# Models of changed marks

A model holds no places and no spelling of keywords.  Where marks are changed in what it does not
hold, transcripts with the same changed marks have one model or faults of one cause.
-/

/-- A fault without the places that it names. -/
def Fault.unplaced
    (fault : Fault) :
    Fault :=
  fault.relocate fun _ => default

namespace Statement

variable {change : Mark → Mark} (preserves : Mark.Preserves change) (statement : Statement)
include preserves

theorem tag_map :
    (statement.map change).tag = statement.tag :=
  preserves.tag statement.primary

theorem name_map :
    (statement.map change).name = statement.name :=
  preserves.name statement.primary

theorem id_map :
    (statement.map change).id = statement.id :=
  preserves.id statement.primary

end Statement

/-- A change of marks as a relabeling of statements, given what it does to places. -/
def Relabeling.ofMarks
    {change : Mark → Mark}
    (preserves : Mark.Preserves change)
    {place : Location → Location}
    (moves : ∀ mark, (change mark).location = place mark.location) :
    Relabeling where
  apply := Statement.map change
  place := place
  tag := Statement.tag_map preserves
  name := Statement.name_map preserves
  binding := Statement.binding_map preserves.toKeeps
  location := fun statement => moves statement.primary

variable {change : Mark → Mark}

/-- A declaration with changed marks declares the same port. -/
theorem Port.ofStatement_map
    (preserves : Mark.Preserves change)
    (id : PortId)
    (owner : ProgramId)
    (declaration : Statement)
    (direction : Direction) :
    Port.ofStatement id owner (declaration.map change) direction =
      Port.ofStatement id owner declaration direction := by
  have sameKind : (declaration.map change).primary.nameKind = declaration.primary.nameKind :=
    preserves.nameKind declaration.primary
  simp only [Port.ofStatement, Statement.tag_map preserves, Statement.name_map preserves,
    Statement.id_map preserves, Statement.binding_map preserves.toKeeps,
    Statement.description?_map preserves.toKeeps, Statement.uri?_map preserves.toKeeps, sameKind]

namespace Assembled

/-- A call with changed marks is the same invocation. -/
theorem ofCall_map
    (preserves : Mark.Preserves change)
    (scope : ProgramId)
    (before : Sizes)
    (site : Statement)
    (taken : List Port) :
    ofCall scope before (site.map change) taken = ofCall scope before site taken := by
  simp only [ofCall, Statement.name_map preserves, Statement.id_map preserves]

/-- A scope between statements with changed marks is the same program. -/
theorem ofScope_map
    (preserves : Mark.Preserves change)
    (parent : Option ProgramId)
    (before : Sizes)
    (opener closer : Statement)
    (body : Level) :
    ofScope parent before (opener.map change) (closer.map change) body =
      ofScope parent before opener closer body := by
  have sameKind : ProgramKind.ofOpener (opener.map change) = ProgramKind.ofOpener opener := by
    rw [ProgramKind.ofOpener, ProgramKind.ofOpener, Statement.tag_map preserves]
  simp only [ofScope, sameKind, Statement.name_map preserves, Statement.id_map preserves]

end Assembled

namespace Outline

/-- A body of statements with changed marks contributes the same. -/
theorem assemble_map
    (preserves : Mark.Preserves change)
    (scope : ProgramId)
    (before : Sizes)
    (taken : List Port)
    (outline : Outline) :
    (outline.map (Statement.map change)).assemble scope before taken =
      outline.assemble scope before taken := by
  induction outline generalizing scope before taken with
  | nil => rfl
  | port declaration direction rest inductionHypothesis =>
      have sameTaken :
          (rest.map (Statement.map change)).takes (declaration.map change) =
            rest.takes declaration := by
        simp only [takes, Statement.tag_map preserves, callAhead_map]
      simp only [map, assemble, sameTaken, Port.ofStatement_map preserves, inductionHypothesis]
  | call site rest inductionHypothesis =>
      simp only [map, assemble, Assembled.ofCall_map preserves, inductionHypothesis]
  | scope opener body closer rest bodyHypothesis inductionHypothesis =>
      simp only [map, assemble, Assembled.ofScope_map preserves, bodyHypothesis,
        inductionHypothesis]

end Outline

/-- Blocks of statements with changed marks are assembled to the same programs. -/
theorem Block.assembleAll_map
    (preserves : Mark.Preserves change)
    (before : Sizes)
    (blocks : List Block) :
    assembleAll before (blocks.map (Block.map (Statement.map change))) =
      assembleAll before blocks := by
  induction blocks generalizing before with
  | nil => rfl
  | cons block blocks inductionHypothesis =>
      have sameBlock :
          (block.map (Statement.map change)).assemble before = block.assemble before := by
        simp only [Block.assemble, Block.map, Outline.assemble_map preserves,
          Assembled.ofScope_map preserves]
      simp only [List.map_cons, assembleAll, sameBlock, inductionHypothesis]

namespace Model

/-- Blocks of statements with changed marks have the same model. -/
theorem ofBlocks_map
    (preserves : Mark.Preserves change)
    (workflow : Option String)
    (blocks : List Block) :
    ofBlocks workflow (blocks.map (Block.map (Statement.map change))) =
      ofBlocks workflow blocks := by
  simp only [ofBlocks, Block.assembleAll_map preserves]

/-- But for moved places, the outcome of building a model depends on the changed marks only. -/
theorem ofTranscript_eq_of_map
    (preserves : Mark.Preserves change)
    {place : Location → Location}
    (moves : ∀ mark, (change mark).location = place mark.location)
    {first second : Transcript}
    (same : first.marks.map change = second.marks.map change)
    (workflow : Option String) :
    (ofTranscript workflow first).mapError (Fault.relocate place) =
      (ofTranscript workflow second).mapError (Fault.relocate place) := by
  have shape : ∀ transcript : Transcript,
      (ofTranscript workflow transcript).mapError (Fault.relocate place) =
        (Block.ofStatements (transcript.statements.map (Statement.map change))).map
          (ofBlocks workflow) := by
    intro transcript
    have relabeled := (Relabeling.ofMarks preserves moves).ofStatements_map transcript.statements
    change Block.ofStatements (transcript.statements.map (Statement.map change)) = _ at relabeled
    rw [relabeled, ofTranscript]
    cases Block.ofStatements transcript.statements with
    | error fault => rfl
    | ok blocks =>
        simp only [Except.map, Fault.mapError_ok]
        exact congrArg Except.ok (ofBlocks_map preserves workflow blocks).symm
  rw [shape first, shape second, Transcript.map_statements preserves same]

/-- Up to places, the outcome of building a model depends on the marks without places only. -/
theorem ofTranscript_eq_of_unplaced
    {first second : Transcript}
    (same : first.marks.map Mark.unplaced = second.marks.map Mark.unplaced)
    (workflow : Option String) :
    (ofTranscript workflow first).mapError Fault.unplaced =
      (ofTranscript workflow second).mapError Fault.unplaced :=
  ofTranscript_eq_of_map Mark.preserves_unplaced (fun _ => rfl) same workflow

end Model

end Flowmark
