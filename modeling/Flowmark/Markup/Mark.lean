import Flowmark.Location
import Flowmark.Tag

namespace Flowmark

/-! # Marks

A mark is one markup unit: its tag, the keyword as written, a name, an optional
description, and for a qualifier the primary that it modifies.
-/

/-- What sort of token a name is. -/
inductive NameKind where
  /-- An identifier. -/
  | identifier
  /-- A number. -/
  | number
  /-- A string with its quotes. -/
  | string
  /-- Anything else, such as a path or a dotted name. -/
  | other
  deriving Repr, DecidableEq, Inhabited

namespace NameKind

/-- Numbers and strings are literals. -/
def isLiteral : NameKind → Bool
  | number | string => true
  | identifier | other => false

/-- The name of a name kind in exported data. -/
def name : NameKind → String
  | identifier => "Identifier"
  | number => "Number"
  | string => "String"
  | other => "Other"

end NameKind

/-- The number of a mark in its run, counted from one. -/
abbrev MarkId :=
  Nat

/-- The content of a mark, before it has a number. -/
structure Entry where
  location : Location
  tag : Tag
  keyword : String
  name : String
  nameKind : NameKind
  description : Option String
  qualifies : Option MarkId
  deriving Repr, DecidableEq

/-- One numbered markup unit. -/
structure Mark extends Entry where
  id : MarkId
  deriving Repr, DecidableEq

namespace Mark

/-- Whether the mark modifies a primary. -/
def isQualifier
    (mark : Mark) :
    Bool :=
  mark.tag.isQualifier

/-- Whether the mark stands for itself. -/
def isPrimary
    (mark : Mark) :
    Bool :=
  mark.tag.isPrimary

end Mark

/-- The position in a list of marks that belongs to a number; zero has none. -/
def MarkId.index? : MarkId → Option Nat
  | 0 => none
  | index + 1 => some index

end Flowmark
