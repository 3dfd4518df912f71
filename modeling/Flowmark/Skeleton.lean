import Flowmark.Markup.Statement

namespace Flowmark

/-! # Skeletons

The skeleton of a transcript is its markup written again as comment lines.  Every statement is one
line, its qualifiers behind its primary.  The content of a scope is indented by four blanks and
set off by an empty comment line after the opening line and before the closing line.
-/

/-- One comment line of a skeleton: how deep it stands, and its text unless it is empty. -/
structure SkeletonLine where
  depth : Nat
  text : Option String
  deriving Repr, DecidableEq

namespace SkeletonLine

/-- The four blanks of each level in front of a line. -/
def indent
    (depth : Nat) :
    String :=
  String.ofList (List.replicate (4 * depth) ' ')

/-- A comment line as written with a delimiter. -/
def render
    (delimiter : String)
    (line : SkeletonLine) :
    String :=
  match line.text with
  | none => indent line.depth ++ delimiter
  | some text => indent line.depth ++ delimiter ++ " " ++ text

end SkeletonLine

namespace Mark

/-- A mark as written: keyword, name and description. -/
def text
    (mark : Mark) :
    String :=
  match mark.description with
  | none => mark.keyword ++ " " ++ mark.name
  | some description => mark.keyword ++ " " ++ mark.name ++ " " ++ description

end Mark

namespace Statement

/-- A statement as written on one line: the primary and its qualifiers. -/
def text
    (statement : Statement) :
    String :=
  " ".intercalate ((statement.primary :: statement.qualifiers).map Mark.text)

/-- The depth after a statement that stands at a depth; a close without open stays at zero. -/
def depthAfter
    (depth : Nat)
    (statement : Statement) :
    Nat :=
  match statement.tag.role with
  | .opens => depth + 1
  | .closes => depth - 1
  | _ => depth

/-- The skeleton lines of a statement that stands at a depth. -/
def skeletonLines
    (depth : Nat)
    (statement : Statement) :
    List SkeletonLine :=
  match statement.tag.role with
  | .opens => [⟨depth, some statement.text⟩, ⟨depth + 1, none⟩]
  | .closes => [⟨depth, none⟩, ⟨depth - 1, some statement.text⟩]
  | _ => [⟨depth, some statement.text⟩]

end Statement

namespace Skeleton

/-- The skeleton lines of statements, the first standing at a depth. -/
def lines : (depth : Nat) → List Statement → List SkeletonLine
  | _, [] => []
  | depth, statement :: statements =>
      statement.skeletonLines depth ++ lines (statement.depthAfter depth) statements

end Skeleton

namespace Transcript

/-- The skeleton of a transcript, each line opened by a delimiter and ended by a line feed. -/
def skeleton
    (transcript : Transcript)
    (delimiter : String) :
    String :=
  String.join ((Skeleton.lines 0 transcript.statements).map fun line =>
    line.render delimiter ++ "\n")

end Transcript

end Flowmark
