import Flowmark.Markup.Transcript

namespace Flowmark

/-! # Statements

A statement is a primary mark read together with the qualifiers that follow it.  The last
rebinding gives the name under which a port is visible, and the last place gives its URI.
-/

/-- A primary mark with its qualifiers. -/
structure Statement where
  primary : Mark
  qualifiers : List Mark
  deriving Repr, DecidableEq

namespace Statement

/-- The number of the primary. -/
def id
    (statement : Statement) :
    MarkId :=
  statement.primary.id

/-- The tag of the primary. -/
def tag
    (statement : Statement) :
    Tag :=
  statement.primary.tag

/-- The name of the primary. -/
def name
    (statement : Statement) :
    String :=
  statement.primary.name

/-- The place of the primary. -/
def location
    (statement : Statement) :
    Location :=
  statement.primary.location

/-- The direction of the port that the primary declares, if it declares one. -/
def direction?
    (statement : Statement) :
    Option Direction :=
  statement.tag.direction?

/-- The qualifiers that rebind the primary. -/
def rebindings
    (statement : Statement) :
    List Mark :=
  statement.qualifiers.filter (·.tag = .rebind)

/-- The name given by the last rebinding. -/
def alias?
    (statement : Statement) :
    Option String :=
  statement.rebindings.getLast?.map (·.name)

/-- The name visible from outside: the alias if there is one, else the name of the primary. -/
def binding
    (statement : Statement) :
    String :=
  statement.alias?.getD statement.name

/-- The descriptions of the primary and of its rebindings, joined by single blanks. -/
def description?
    (statement : Statement) :
    Option String :=
  match (statement.primary :: statement.rebindings).filterMap (·.description) with
  | [] => none
  | fragments => some (" ".intercalate fragments)

/-- The place that a place qualifier names; a file name gets a scheme unless it has it. -/
def placeOf
    (qualifier : Mark) :
    String :=
  if qualifier.tag = .file ∧ ¬ "file:".toList.isPrefixOf qualifier.name.toList then
    "file:" ++ qualifier.name
  else
    qualifier.name

/-- The place named by the last place qualifier. -/
def uri?
    (statement : Statement) :
    Option String :=
  (statement.qualifiers.filter fun qualifier =>
    qualifier.tag = .uri ∨ qualifier.tag = .file).getLast?.map placeOf

end Statement

namespace Transcript

/-- A numbered mark with the qualifiers attached to it. -/
def statement?
    (transcript : Transcript)
    (id : MarkId) :
    Option Statement :=
  (transcript.get? id).map fun primary => ⟨primary, transcript.attached id⟩

/-- Every primary with the qualifiers attached to it, in order. -/
def statements
    (transcript : Transcript) :
    List Statement :=
  transcript.primaries.map fun primary => ⟨primary, transcript.attached primary.id⟩

/-- The statements have the numbers of the primaries, in order. -/
theorem map_id_statements
    (transcript : Transcript) :
    transcript.statements.map Statement.id = transcript.primaryIds := by
  rw [statements, primaryIds, List.map_map]
  rfl

/-- No two statements have the same number. -/
theorem nodup_id_statements
    (transcript : Transcript) :
    (transcript.statements.map Statement.id).Nodup := by
  rw [map_id_statements]
  exact (List.filter_sublist.map Mark.id).nodup transcript.nodup_map_id

end Transcript

end Flowmark
