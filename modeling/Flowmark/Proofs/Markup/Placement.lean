import Flowmark.Markup.Statement
import Flowmark.Skeleton

namespace Flowmark

/-!
# Changed marks

A change of marks that keeps what a statement says keeps what is read off its statements.  Taking
the places from marks is such a change: two transcripts whose marks differ in their places only have
statements that differ in the places of their marks only, and they are written alike.
-/

namespace Mark

/-- A mark without its place. -/
def unplaced
    (mark : Mark) :
    Mark :=
  { mark with location := default }

/-- A change of marks keeps what statements say. -/
structure Keeps
    (change : Mark → Mark) :
    Prop where
  tag : ∀ mark, (change mark).tag = mark.tag
  name : ∀ mark, (change mark).name = mark.name
  description : ∀ mark, (change mark).description = mark.description

/-- A change of marks that keeps, besides, how marks are numbered and related. -/
structure Preserves
    (change : Mark → Mark) : Prop
    extends Keeps change where
  nameKind : ∀ mark, (change mark).nameKind = mark.nameKind
  id : ∀ mark, (change mark).id = mark.id
  qualifies : ∀ mark, (change mark).qualifies = mark.qualifies

/-- Marks without places keep what they say and how they are related. -/
theorem preserves_unplaced :
    Preserves unplaced where
  tag := fun _ => rfl
  name := fun _ => rfl
  description := fun _ => rfl
  nameKind := fun _ => rfl
  id := fun _ => rfl
  qualifies := fun _ => rfl

end Mark

namespace Statement

/-- The marks of a statement in the order of the transcript. -/
def marks
    (statement : Statement) :
    List Mark :=
  statement.primary :: statement.qualifiers

/-- A statement with changed marks. -/
def map
    (change : Mark → Mark)
    (statement : Statement) :
    Statement where
  primary := change statement.primary
  qualifiers := statement.qualifiers.map change

/-! What a statement says stays where tags, names and descriptions of its marks stay. -/

/-- Changing marks keeps which of them rebind. -/
theorem rebindings_map
    {change : Mark → Mark}
    (keeps : Mark.Keeps change)
    (statement : Statement) :
    (statement.map change).rebindings = statement.rebindings.map change := by
  simp only [rebindings, map, List.filter_map, Function.comp_def, keeps.tag]

/-- Changing marks keeps the binding. -/
theorem binding_map
    {change : Mark → Mark}
    (keeps : Mark.Keeps change)
    (statement : Statement) :
    (statement.map change).binding = statement.binding := by
  have sameName : (statement.map change).name = statement.name := keeps.name statement.primary
  simp only [binding, alias?, rebindings_map keeps, List.getLast?_map, Option.map_map,
    Function.comp_def, keeps.name, sameName]

/-- Changing marks keeps the description. -/
theorem description?_map
    {change : Mark → Mark}
    (keeps : Mark.Keeps change)
    (statement : Statement) :
    (statement.map change).description? = statement.description? := by
  unfold description?
  rw [rebindings_map keeps, show (statement.map change).primary = change statement.primary from rfl,
    ← List.map_cons, List.filterMap_map]
  simp only [Function.comp_def, keeps.description]

/-- Changing marks keeps the place that is named. -/
theorem uri?_map
    {change : Mark → Mark}
    (keeps : Mark.Keeps change)
    (statement : Statement) :
    (statement.map change).uri? = statement.uri? := by
  have samePlace : ∀ mark, placeOf (change mark) = placeOf mark := by
    intro mark
    simp only [placeOf, keeps.tag, keeps.name]
  simp only [uri?, map, List.filter_map, List.getLast?_map, Option.map_map, Function.comp_def,
    keeps.tag, samePlace]

/-- A statement without the places of its marks. -/
def unplaced
    (statement : Statement) :
    Statement where
  primary := statement.primary.unplaced
  qualifiers := statement.qualifiers.map Mark.unplaced

theorem map_unplaced :
    map Mark.unplaced = unplaced :=
  rfl

@[simp] theorem tag_unplaced
    (statement : Statement) :
    statement.unplaced.tag = statement.tag :=
  rfl

@[simp] theorem text_unplaced
    (statement : Statement) :
    statement.unplaced.text = statement.text := by
  simp only [text, unplaced, List.map_cons, List.map_map]
  rfl

end Statement

namespace Skeleton

/-- Statements without places have the same lines in a skeleton. -/
theorem lines_unplaced
    (depth : Nat)
    (statements : List Statement) :
    lines depth (statements.map Statement.unplaced) = lines depth statements := by
  induction statements generalizing depth with
  | nil => rfl
  | cons statement statements inductionHypothesis =>
      simp only [List.map_cons, lines, Statement.skeletonLines, Statement.depthAfter,
        Statement.tag_unplaced, Statement.text_unplaced, inductionHypothesis]

end Skeleton

namespace Transcript

/-- The changed marks that are attached depend on the changed marks only. -/
theorem map_attached
    {change : Mark → Mark}
    (preserves : Mark.Preserves change)
    (transcript : Transcript)
    (id : MarkId) :
    (transcript.attached id).map change =
      match id with
      | 0 => []
      | id => ((transcript.marks.map change).drop id).takeWhile (·.qualifies = some id) := by
  cases id with
  | zero => rfl
  | succ index =>
      simp only [attached, ← List.map_drop, List.takeWhile_map, Function.comp_def,
        preserves.qualifies]

/-- The changed statements depend on the changed marks only. -/
theorem map_statements
    {change : Mark → Mark}
    (preserves : Mark.Preserves change)
    {first second : Transcript}
    (same : first.marks.map change = second.marks.map change) :
    first.statements.map (Statement.map change) =
      second.statements.map (Statement.map change) := by
  have shape : ∀ transcript : Transcript,
      transcript.statements.map (Statement.map change) =
        ((transcript.marks.map change).filter Mark.isPrimary).map fun primary =>
          ⟨primary, match primary.id with
            | 0 => []
            | id =>
                ((transcript.marks.map change).drop id).takeWhile (·.qualifies = some id)⟩ := by
    intro transcript
    have samePrimaries :
        (transcript.marks.map change).filter Mark.isPrimary =
          transcript.primaries.map change := by
      simp only [primaries, List.filter_map, Function.comp_def, Mark.isPrimary, preserves.tag]
      rfl
    rw [samePrimaries, List.map_map, statements, List.map_map]
    apply List.map_congr_left
    intro primary _
    simp only [Function.comp_apply, Statement.map, map_attached preserves, preserves.id]
  rw [shape first, shape second, same]

/-- Transcripts that differ in places only have the same skeleton. -/
theorem skeleton_eq_of_unplaced
    {first second : Transcript}
    (same : first.marks.map Mark.unplaced = second.marks.map Mark.unplaced)
    (delimiter : String) :
    first.skeleton delimiter = second.skeleton delimiter := by
  unfold skeleton
  rw [← Skeleton.lines_unplaced, ← Skeleton.lines_unplaced 0 second.statements,
    ← Statement.map_unplaced, map_statements Mark.preserves_unplaced same]

end Transcript

end Flowmark
