namespace Flowmark

/-! # Tags

A tag is the kind of a markup unit.  Primary tags declare scopes, calls and ports; qualifier tags
modify the primary before them.
-/

/-- The direction in which data flows through a port. -/
inductive Direction where
  | input
  | output
  deriving Repr, DecidableEq

/-- The word for a direction in a message. -/
def Direction.text : Direction → String
  | input => "input"
  | output => "output"

/-- The name of a direction in exported data. -/
def Direction.name : Direction → String
  | input => "Input"
  | output => "Output"

/-- The kinds of markup units. -/
inductive Tag where
  /-- Opens a scope whose body is in the script. -/
  | begin
  /-- Closes the innermost open scope. -/
  | finish
  /-- Declares an input. -/
  | input
  /-- Declares an output. -/
  | output
  /-- Declares an input that is a parameter. -/
  | parameter
  /-- Declares an output that is a result of the scope as a function. -/
  | result
  /-- Gives the primary before it another binding. -/
  | rebind
  /-- Tells the place of what the primary before it names. -/
  | uri
  /-- Tells the file in which what the primary before it names is found. -/
  | file
  /-- Calls a program whose body is elsewhere. -/
  | call
  /-- Opens a scope whose body is supplied from outside. -/
  | create
  deriving Repr, DecidableEq

/-- The parts that tags play in the structure of the markup. -/
inductive Tag.Role where
  /-- Opens a scope. -/
  | opens
  /-- Closes the innermost open scope. -/
  | closes
  /-- Calls a program. -/
  | calls
  /-- Declares a port of a direction. -/
  | declares (direction : Direction)
  /-- Modifies the nearest primary before it. -/
  | qualifies
  deriving Repr, DecidableEq

namespace Tag

/-- Every tag, in the order of the standard keywords. -/
def all : List Tag :=
  [begin, finish, input, output, parameter, result, rebind, uri, file, call, create]

/-- The name of a tag in exported data and in settings. -/
def name : Tag → String
  | begin => "Begin"
  | finish => "End"
  | input => "In"
  | output => "Out"
  | parameter => "Param"
  | result => "Return"
  | rebind => "As"
  | uri => "Uri"
  | file => "File"
  | call => "Call"
  | create => "Create"

/-- The standard keyword of a tag. -/
def keyword : Tag → String
  | begin => "@begin"
  | finish => "@end"
  | input => "@in"
  | output => "@out"
  | parameter => "@param"
  | result => "@return"
  | rebind => "@as"
  | uri => "@uri"
  | file => "@file"
  | call => "@call"
  | create => "@create"

/-- The name of a tag in listings. -/
def label : Tag → String
  | begin => "BEGIN"
  | finish => "END"
  | input => "IN"
  | output => "OUT"
  | parameter => "PARAM"
  | result => "RETURN"
  | rebind => "AS"
  | uri => "URI"
  | file => "FILE"
  | call => "CALL"
  | create => "CREATE"

/-- The tag with a name in exported data. -/
def ofName?
    (name : String) :
    Option Tag :=
  all.find? (·.name = name)

/-- The part of a tag in the structure of the markup. -/
def role : Tag → Role
  | begin | create => .opens
  | finish => .closes
  | call => .calls
  | input | parameter => .declares .input
  | output | result => .declares .output
  | rebind | uri | file => .qualifies

/-- A qualifier modifies the nearest primary before it. -/
def isQualifier
    (tag : Tag) :
    Bool :=
  tag.role = .qualifies

/-- A primary stands for itself. -/
def isPrimary
    (tag : Tag) :
    Bool :=
  !tag.isQualifier

/-- Whether a tag opens a scope. -/
def opensScope
    (tag : Tag) :
    Bool :=
  tag.role = .opens

/-- The direction of the port that a tag declares, for the tags that declare one. -/
def direction?
    (tag : Tag) :
    Option Direction :=
  match tag.role with
  | .declares direction => some direction
  | _ => none

/-- Whether a tag declares a port. -/
def isPort
    (tag : Tag) :
    Bool :=
  tag.direction?.isSome

/-- The list of tags has all of them. -/
theorem mem_all
    (tag : Tag) :
    tag ∈ all := by
  cases tag <;> decide

/-- A tag is found again by its name. -/
@[simp] theorem ofName?_name
    (tag : Tag) :
    ofName? tag.name = some tag := by
  cases tag <;> decide

end Tag

end Flowmark
