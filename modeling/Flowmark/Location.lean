import Flowmark.OrderKey
import Flowmark.Source

namespace Flowmark

/-! # Locations

A location tells where a markup unit stands: source, line, comment within the line and unit within
the comment.  Locations are ordered by these four numbers in turn; what has no source comes first.
-/

/-- A place in the comments of a run; lines and ranks count from one. -/
structure Location where
  source : Option SourceId
  line : Nat
  comment : Nat
  rank : Nat
  deriving Repr, DecidableEq, Inhabited

/-- The place of an optional source in the order of sources: none first, then by number. -/
def sourceOrder : Option SourceId → Nat
  | none => 0
  | some id => id + 1

/-- Different optional sources have different places in the order. -/
theorem sourceOrder_injective
    {first second : Option SourceId}
    (same : sourceOrder first = sourceOrder second) :
    first = second := by
  cases first <;> cases second <;> simp_all [sourceOrder]

namespace Location

/-- The numbers by which locations are ordered. -/
def key
    (location : Location) :
    OrderKey :=
  [sourceOrder location.source, location.line, location.comment, location.rank]

/-- The locations in ascending order. -/
def sort
    (locations : List Location) :
    List Location :=
  OrderKey.sortBy key locations

/-- The text by which a location is named in a message. -/
def text
    (location : Location) :
    String :=
  match location.source with
  | some source => source.text ++ ":" ++ toString location.line
  | none => "line " ++ toString location.line

/-- A location is determined by its key. -/
theorem key_injective
    {first second : Location}
    (same : first.key = second.key) :
    first = second := by
  rcases first with ⟨source, line, comment, rank⟩
  rcases second with ⟨source', line', comment', rank'⟩
  simp only [key, List.cons.injEq, and_true] at same
  obtain ⟨sameSource, rfl, rfl, rfl⟩ := same
  rw [sourceOrder_injective sameSource]

end Location

end Flowmark
