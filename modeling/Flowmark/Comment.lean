import Flowmark.Location

namespace Flowmark

/-! # Comments

A comment is one single-line comment of a script, handed over with its place.  A run reads its
comments in the order of source, line and rank within the line; comments with one key keep the
order in which they were given.
-/

/-- One comment with the line and the rank within the line at which it stands. -/
structure Comment where
  source : Option SourceId
  line : Nat
  rank : Nat
  text : String
  deriving Repr, DecidableEq

namespace Comment

/-- The first comment of a line of a nameless source. -/
def onLine
    (line : Nat)
    (text : String) :
    Comment where
  source := none
  line := line
  rank := 1
  text := text

/-- The place of the comment as a whole, before any markup unit in it. -/
def location
    (comment : Comment) :
    Location where
  source := comment.source
  line := comment.line
  comment := comment.rank
  rank := 0

/-- The numbers by which comments are ordered. -/
def key
    (comment : Comment) :
    OrderKey :=
  [sourceOrder comment.source, comment.line, comment.rank]

/-- The comments in the order of their keys; comments with one key keep their order. -/
def sort
    (comments : List Comment) :
    List Comment :=
  OrderKey.sortBy key comments

/-- The texts of the comments in the order given, each on a line of its own. -/
def listing
    (comments : List Comment) :
    String :=
  String.join (comments.map fun comment => comment.text ++ "\n")

end Comment

end Flowmark
