import Flowmark.Outline

namespace Flowmark

/-!
# Outlines of relabeled statements

Reading an outline looks at the tag, the name and the binding of a statement, and puts its place
into faults.  Where statements are relabeled so that the first three stay, the outline is the same
with relabeled statements, and a fault the same at another place.
-/

/-- A fault at another place; so is the opening to which a cause refers. -/
def Fault.relocate
    (place : Location → Location)
    (fault : Fault) :
    Fault where
  location := place fault.location
  cause :=
    match fault.cause with
    | .mismatchedEnd expected found openedAt => .mismatchedEnd expected found (place openedAt)
    | cause => cause

@[simp] theorem Fault.mapError_ok
    {α : Type}
    (change : Fault → Fault)
    (value : α) :
    (Except.ok value).mapError change = .ok value :=
  rfl

@[simp] theorem Fault.mapError_error
    {α : Type}
    (change : Fault → Fault)
    (fault : Fault) :
    (Except.error fault : Except Fault α).mapError change = .error (change fault) :=
  rfl

/-- A change of statements that keeps tag, name and binding, and moves places. -/
structure Relabeling where
  apply : Statement → Statement
  place : Location → Location
  tag : ∀ statement, (apply statement).tag = statement.tag
  name : ∀ statement, (apply statement).name = statement.name
  binding : ∀ statement, (apply statement).binding = statement.binding
  location : ∀ statement, (apply statement).location = place statement.location

namespace Outline

/-- An outline with relabeled statements. -/
def map
    (relabel : Statement → Statement) :
    Outline → Outline
  | nil => nil
  | port declaration direction rest => port (relabel declaration) direction (rest.map relabel)
  | call site rest => call (relabel site) (rest.map relabel)
  | scope opener body closer rest =>
      scope (relabel opener) (body.map relabel) (relabel closer) (rest.map relabel)

variable (relabel : Statement → Statement)

@[simp] theorem map_append
    (before after : Outline) :
    (before ++ after).map relabel = before.map relabel ++ after.map relabel := by
  induction before with
  | nil => rfl
  | port declaration direction rest inductionHypothesis => simp [map, inductionHypothesis]
  | call site rest inductionHypothesis => simp [map, inductionHypothesis]
  | scope opener body closer rest _ inductionHypothesis => simp [map, inductionHypothesis]

/-- Relabeling moves no call. -/
@[simp] theorem callAhead_map
    (outline : Outline) :
    (outline.map relabel).callAhead = outline.callAhead := by
  induction outline with
  | nil => rfl
  | port declaration direction rest inductionHypothesis => exact inductionHypothesis
  | call site rest _ => rfl
  | scope opener body closer rest _ _ => rfl

end Outline

/-- A block with relabeled statements. -/
def Block.map
    (relabel : Statement → Statement)
    (block : Block) :
    Block where
  opener := relabel block.opener
  body := block.body.map relabel
  closer := relabel block.closer

/-- An open scope with relabeled statements. -/
def Frame.map
    (relabel : Statement → Statement)
    (frame : Frame) :
    Frame where
  opener := relabel frame.opener
  body := frame.body.map relabel

/-- A state of the reader with relabeled statements. -/
def OutlineReader.map
    (relabel : Statement → Statement)
    (reader : OutlineReader) :
    OutlineReader where
  frames := reader.frames.map (Frame.map relabel)
  blocks := reader.blocks.map (Block.map relabel)

namespace Relabeling

variable (relabeling : Relabeling)

/-- A relabeled outline holds the relabeled ports. -/
theorem held_map
    (outline : Outline) :
    (outline.map relabeling.apply).held =
      outline.held.map fun (declaration, direction) =>
        (relabeling.apply declaration, direction) := by
  induction outline with
  | nil => rfl
  | port declaration direction rest inductionHypothesis =>
      have sameTaken :
          (rest.map relabeling.apply).takes (relabeling.apply declaration) =
            rest.takes declaration := by
        simp only [Outline.takes, relabeling.tag, Outline.callAhead_map]
      cases taken : rest.takes declaration <;>
        simp [Outline.map, Outline.held, sameTaken, taken, inductionHypothesis]
  | call site rest inductionHypothesis => exact inductionHypothesis
  | scope opener body closer rest _ inductionHypothesis => exact inductionHypothesis

/-- A relabeled outline holds the same bindings. -/
theorem holds_map
    (outline : Outline)
    (direction : Direction)
    (binding : String) :
    (outline.map relabeling.apply).holds direction binding = outline.holds direction binding := by
  unfold Outline.holds
  rw [relabeling.held_map, List.any_map]
  simp only [Function.comp_def, relabeling.binding]

/-- A scope is closed after relabeling as before. -/
theorem closeScope_map
    (reader : OutlineReader)
    (statement : Statement) :
    (reader.map relabeling.apply).closeScope (relabeling.apply statement) =
      ((reader.closeScope statement).map (OutlineReader.map relabeling.apply)).mapError
        (Fault.relocate relabeling.place) := by
  rcases reader with ⟨frames, blocks⟩
  cases frames with
  | nil =>
      simp [OutlineReader.closeScope, OutlineReader.map, Except.map, Fault.relocate,
        relabeling.location, relabeling.name]
  | cons frame outer =>
      by_cases sameName : frame.opener.name = statement.name
      · cases outer with
        | nil =>
            simp [OutlineReader.closeScope, OutlineReader.map, Frame.map, Block.map, Except.map,
              relabeling.name, sameName]
        | cons parent outer =>
            simp [OutlineReader.closeScope, OutlineReader.map, Frame.map, Frame.extend,
              Outline.map, Except.map, relabeling.name, sameName]
      · simp [OutlineReader.closeScope, OutlineReader.map, Frame.map, Except.map, Fault.relocate,
          relabeling.location, relabeling.name, sameName]

/-- A call is recorded after relabeling as before. -/
theorem addCall_map
    (reader : OutlineReader)
    (statement : Statement) :
    (reader.map relabeling.apply).addCall (relabeling.apply statement) =
      ((reader.addCall statement).map (OutlineReader.map relabeling.apply)).mapError
        (Fault.relocate relabeling.place) := by
  rcases reader with ⟨frames, blocks⟩
  cases frames with
  | nil =>
      simp [OutlineReader.addCall, OutlineReader.map, Except.map, Fault.relocate,
        relabeling.location, relabeling.name, relabeling.tag]
  | cons frame outer =>
      simp [OutlineReader.addCall, OutlineReader.map, Frame.map, Frame.extend, Outline.map,
        Except.map]

/-- A port is declared after relabeling as before. -/
theorem addPort_map
    (reader : OutlineReader)
    (statement : Statement)
    (direction : Direction) :
    (reader.map relabeling.apply).addPort (relabeling.apply statement) direction =
      ((reader.addPort statement direction).map (OutlineReader.map relabeling.apply)).mapError
        (Fault.relocate relabeling.place) := by
  rcases reader with ⟨frames, blocks⟩
  cases frames with
  | nil =>
      simp [OutlineReader.addPort, OutlineReader.map, Except.map, Fault.relocate,
        relabeling.location, relabeling.name, relabeling.tag]
  | cons frame outer =>
      cases held : frame.body.holds direction statement.binding with
      | true =>
          simp [OutlineReader.addPort, OutlineReader.map, Frame.map, Except.map, Fault.relocate,
            relabeling.location, relabeling.name, relabeling.binding, relabeling.holds_map, held]
      | false =>
          simp [OutlineReader.addPort, OutlineReader.map, Frame.map, Frame.extend, Outline.map,
            Except.map, relabeling.binding, relabeling.holds_map, held]

/-- One statement is read after relabeling as before, up to the relabeling. -/
theorem step_map
    (reader : OutlineReader)
    (statement : Statement) :
    (reader.map relabeling.apply).step (relabeling.apply statement) =
      ((reader.step statement).map (OutlineReader.map relabeling.apply)).mapError
        (Fault.relocate relabeling.place) := by
  unfold OutlineReader.step
  rw [relabeling.tag]
  cases statement.tag.role with
  | opens => rfl
  | closes => exact relabeling.closeScope_map reader statement
  | calls => exact relabeling.addCall_map reader statement
  | declares direction => exact relabeling.addPort_map reader statement direction
  | qualifies => rfl

/-- Statements are read after relabeling as before, up to the relabeling. -/
theorem run_map
    (reader : OutlineReader)
    (statements : List Statement) :
    (reader.map relabeling.apply).run (statements.map relabeling.apply) =
      ((reader.run statements).map (OutlineReader.map relabeling.apply)).mapError
        (Fault.relocate relabeling.place) := by
  induction statements generalizing reader with
  | nil => rfl
  | cons statement statements inductionHypothesis =>
      rw [List.map_cons, OutlineReader.run, OutlineReader.run, relabeling.step_map]
      cases reader.step statement with
      | error fault => rfl
      | ok next => exact inductionHypothesis next

/-- The blocks after relabeling are the relabeled blocks. -/
theorem finish_map
    (reader : OutlineReader) :
    (reader.map relabeling.apply).finish =
      (reader.finish.map (List.map (Block.map relabeling.apply))).mapError
        (Fault.relocate relabeling.place) := by
  rcases reader with ⟨frames, blocks⟩
  cases frames with
  | nil => rfl
  | cons frame outer =>
      simp [OutlineReader.finish, OutlineReader.map, Frame.map, Except.map,
        Fault.relocate, relabeling.location, relabeling.name]

/-- The outline of relabeled statements is the relabeled outline, and a fault moves with them. -/
theorem ofStatements_map
    (statements : List Statement) :
    Block.ofStatements (statements.map relabeling.apply) =
      ((Block.ofStatements statements).map (List.map (Block.map relabeling.apply))).mapError
        (Fault.relocate relabeling.place) := by
  unfold Block.ofStatements
  rw [show OutlineReader.start = OutlineReader.start.map relabeling.apply from rfl,
    relabeling.run_map]
  rw [← show OutlineReader.start = OutlineReader.start.map relabeling.apply from rfl]
  cases OutlineReader.start.run statements with
  | error fault => rfl
  | ok reader => exact relabeling.finish_map reader

end Relabeling

end Flowmark
