import Flowmark.Markup.Mark
import Flowmark.Argument
import Flowmark.Fault
import Flowmark.Keyword.Table
import Flowmark.Text.Identifier

namespace Flowmark

open Text

/-! # Clauses

A clause is the content of one segment: a keyword, a name and the words of a description.  The
first token must be a keyword as a whole, and at least one argument must follow it.
-/

/-- The parts of one segment. -/
structure Clause where
  tag : Tag
  keyword : List Char
  name : Argument
  details : List Argument
  deriving Repr, DecidableEq

/-- What a message says that a keyword needs. -/
def Tag.expected : Tag → String
  | .input | .output | .parameter => "name or literal"
  | .rebind => "alias"
  | .uri | .file => "value"
  | .begin | .finish | .result | .call | .create => "name"

/-- The sort of name that an argument makes. -/
def Argument.nameKind
    (argument : Argument) :
    NameKind :=
  match argument.kind with
  | .number => .number
  | .doubleQuoted | .singleQuoted => .string
  | .word => if isIdentifier argument.text then .identifier else .other

namespace Clause

/-- The words after the name joined by single blanks, if there are any. -/
def description?
    (clause : Clause) :
    Option (List Char) :=
  match clause.details with
  | [] => none
  | details => some ([' '].intercalate (details.map Argument.text))

/-- Read a segment under a keyword table. -/
def read
    (table : KeywordTable)
    (segment : List Char) :
    Except Fault.Cause Clause :=
  let text := trimStart segment
  let keyword := headWord text
  match table.tag? keyword with
  | none => .error (.unknownKeyword (String.ofList keyword))
  | some tag =>
      match Argument.all (afterHeadWord text) with
      | [] => .error (.missingArgument tag tag.expected)
      | name :: details => .ok { tag, keyword, name, details }

/-- The mark content that a clause makes at a place. -/
def entry
    (clause : Clause)
    (location : Location)
    (qualifies : Option MarkId) :
    Entry where
  location := location
  tag := clause.tag
  keyword := String.ofList clause.keyword
  name := String.ofList clause.name.text
  nameKind := clause.name.nameKind
  description := clause.description?.map String.ofList
  qualifies := qualifies

end Clause

end Flowmark
