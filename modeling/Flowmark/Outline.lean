import Flowmark.Fault
import Flowmark.Markup.Statement

namespace Flowmark

/-! # Outlines

The statements of a transcript form a bracket structure: scopes that hold ports, calls and further
scopes.  It is read in one pass with a stack of open scopes, and the first statement that does not
fit is a fault.

A call takes over the ports declared just before it in its scope, results excepted; the scope
holds all others.  A scope may not hold two ports of one direction with one binding, so a binding
is free again once a call has taken its port.
-/

/-- The body of a scope: ports, calls and further scopes in order. -/
inductive Outline where
  | nil
  | port (declaration : Statement) (direction : Direction) (rest : Outline)
  | call (site : Statement) (rest : Outline)
  | scope (opener : Statement) (body : Outline) (closer : Statement) (rest : Outline)
  deriving Repr, DecidableEq

/-- A scope that stands in no other one. -/
structure Block where
  opener : Statement
  body : Outline
  closer : Statement
  deriving Repr, DecidableEq

namespace Outline

/-- One outline followed by another. -/
protected def append : Outline → Outline → Outline
  | nil, after => after
  | port declaration direction rest, after => port declaration direction (rest.append after)
  | call site rest, after => call site (rest.append after)
  | scope opener body closer rest, after => scope opener body closer (rest.append after)

instance : Append Outline :=
  ⟨Outline.append⟩

/-- The statements of an outline in the order of the transcript. -/
def statements : Outline → List Statement
  | nil => []
  | port declaration _ rest => declaration :: rest.statements
  | call site rest => site :: rest.statements
  | scope opener body closer rest =>
      opener :: (body.statements ++ closer :: rest.statements)

/-- Whether a call is the first item that is no port. -/
def callAhead : Outline → Bool
  | nil => false
  | port _ _ rest => rest.callAhead
  | call _ _ => true
  | scope _ _ _ _ => false

/-- Whether a call takes a port over, given what follows the declaration of the port. -/
def takes
    (following : Outline)
    (declaration : Statement) :
    Bool :=
  declaration.tag != .result && following.callAhead

/-- The ports of an outline that no call takes over, with their directions. -/
def held : Outline → List (Statement × Direction)
  | nil => []
  | port declaration direction rest =>
      if rest.takes declaration then rest.held else (declaration, direction) :: rest.held
  | call _ rest => rest.held
  | scope _ _ _ rest => rest.held

/-- Whether an outline holds a port with a direction and a binding. -/
def holds
    (outline : Outline)
    (direction : Direction)
    (binding : String) :
    Bool :=
  outline.held.any fun (declaration, held) =>
    held = direction ∧ declaration.binding = binding

@[simp] theorem nil_append
    (after : Outline) :
    nil ++ after = after :=
  rfl

@[simp] theorem port_append
    (declaration : Statement)
    (direction : Direction)
    (rest after : Outline) :
    port declaration direction rest ++ after = port declaration direction (rest ++ after) :=
  rfl

@[simp] theorem call_append
    (site : Statement)
    (rest after : Outline) :
    call site rest ++ after = call site (rest ++ after) :=
  rfl

@[simp] theorem scope_append
    (opener closer : Statement)
    (body rest after : Outline) :
    scope opener body closer rest ++ after = scope opener body closer (rest ++ after) :=
  rfl

@[simp] theorem append_nil
    (outline : Outline) :
    outline ++ nil = outline := by
  induction outline with
  | nil => rfl
  | port declaration direction rest inductionHypothesis => simp [inductionHypothesis]
  | call site rest inductionHypothesis => simp [inductionHypothesis]
  | scope opener body closer rest _ inductionHypothesis => simp [inductionHypothesis]

theorem append_assoc
    (first second third : Outline) :
    first ++ second ++ third = first ++ (second ++ third) := by
  induction first with
  | nil => rfl
  | port declaration direction rest inductionHypothesis => simp [inductionHypothesis]
  | call site rest inductionHypothesis => simp [inductionHypothesis]
  | scope opener body closer rest _ inductionHypothesis => simp [inductionHypothesis]

/-- The statements of two outlines follow one another. -/
@[simp] theorem statements_append
    (before after : Outline) :
    (before ++ after).statements = before.statements ++ after.statements := by
  induction before with
  | nil => rfl
  | port declaration direction rest inductionHypothesis =>
      simp [statements, inductionHypothesis]
  | call site rest inductionHypothesis => simp [statements, inductionHypothesis]
  | scope opener body closer rest _ inductionHypothesis =>
      simp [statements, inductionHypothesis]

end Outline

namespace Block

/-- The statements of a block in the order of the transcript. -/
def statements
    (block : Block) :
    List Statement :=
  block.opener :: (block.body.statements ++ [block.closer])

end Block

/-- An open scope with the part of its body that is read. -/
structure Frame where
  opener : Statement
  body : Outline
  deriving Repr, DecidableEq

namespace Frame

/-- Put a further part of the body at its end. -/
def extend
    (frame : Frame)
    (part : Outline) :
    Frame :=
  { frame with body := frame.body ++ part }

end Frame

/-- The state while an outline is read: the open scopes, innermost first, and the closed blocks. -/
structure OutlineReader where
  frames : List Frame
  blocks : List Block
  deriving Repr, DecidableEq

namespace OutlineReader

/-- The state before any statement. -/
def start : OutlineReader where
  frames := []
  blocks := []

/-- Open a scope inside the innermost one. -/
def openScope
    (reader : OutlineReader)
    (opener : Statement) :
    OutlineReader :=
  { reader with frames := ⟨opener, .nil⟩ :: reader.frames }

/-- Close the innermost scope, which must have the name of the closing statement. -/
def closeScope
    (reader : OutlineReader)
    (closer : Statement) :
    Except Fault OutlineReader :=
  match reader.frames with
  | [] => .error ⟨closer.location, .unmatchedEnd closer.name⟩
  | frame :: outer =>
      if frame.opener.name = closer.name then
        match outer with
        | [] => .ok {
            frames := []
            blocks := reader.blocks ++ [⟨frame.opener, frame.body, closer⟩] }
        | parent :: outer => .ok {
            frames := parent.extend (.scope frame.opener frame.body closer .nil) :: outer
            blocks := reader.blocks }
      else
        .error ⟨closer.location,
          .mismatchedEnd frame.opener.name closer.name frame.opener.location⟩

/-- Record a call in the innermost scope. -/
def addCall
    (reader : OutlineReader)
    (site : Statement) :
    Except Fault OutlineReader :=
  match reader.frames with
  | [] => .error ⟨site.location, .outsideScope site.tag site.name⟩
  | frame :: outer =>
      .ok { reader with frames := frame.extend (.call site .nil) :: outer }

/-- Declare a port in the innermost scope, which must not hold its binding already. -/
def addPort
    (reader : OutlineReader)
    (declaration : Statement)
    (direction : Direction) :
    Except Fault OutlineReader :=
  match reader.frames with
  | [] => .error ⟨declaration.location, .outsideScope declaration.tag declaration.name⟩
  | frame :: outer =>
      if frame.body.holds direction declaration.binding then
        .error ⟨declaration.location,
          .duplicateBinding frame.opener.name direction declaration.binding⟩
      else
        .ok { reader with frames := frame.extend (.port declaration direction .nil) :: outer }

/-- Read one statement. -/
def step
    (reader : OutlineReader)
    (statement : Statement) :
    Except Fault OutlineReader :=
  match statement.tag.role with
  | .opens => .ok (reader.openScope statement)
  | .closes => reader.closeScope statement
  | .calls => reader.addCall statement
  | .declares direction => reader.addPort statement direction
  | .qualifies => .ok reader

/-- Read statements one after another up to the first fault. -/
def run
    (reader : OutlineReader) :
    List Statement → Except Fault OutlineReader
  | [] => .ok reader
  | statement :: statements =>
      match reader.step statement with
      | .error fault => .error fault
      | .ok reader => reader.run statements

/-- The blocks that are read, provided that no scope is open. -/
def finish
    (reader : OutlineReader) :
    Except Fault (List Block) :=
  match reader.frames with
  | [] => .ok reader.blocks
  | frame :: _ => .error ⟨frame.opener.location, .unclosedScope frame.opener.name⟩

end OutlineReader

namespace Block

/-- The blocks that a list of statements forms, or the first fault in it. -/
def ofStatements
    (statements : List Statement) :
    Except Fault (List Block) :=
  match OutlineReader.start.run statements with
  | .error fault => .error fault
  | .ok reader => reader.finish

end Block

end Flowmark
