namespace Flowmark

/-! # Sources

The scripts of a run are numbered in the order in which they are given, so that ordering by number
keeps that order.
-/

/-- The place of a script in the list of sources, counted from zero. -/
abbrev SourceId :=
  Nat

/-- The text by which a source is named in a message. -/
def SourceId.text
    (id : SourceId) :
    String :=
  "source#" ++ toString id

/-- The paths of a run's sources, each once, in the order of their registration. -/
structure SourceList where
  paths : List String
  distinct : paths.Nodup
  deriving Repr, DecidableEq

namespace SourceList

/-- The list without sources. -/
def empty : SourceList where
  paths := []
  distinct := List.nodup_nil

/-- The number under which a path is registered. -/
def id?
    (sources : SourceList)
    (path : String) :
    Option SourceId :=
  sources.paths.idxOf? path

/-- The path registered under a number. -/
def path?
    (sources : SourceList)
    (id : SourceId) :
    Option String :=
  sources.paths[id]?

/-- The number of registered paths. -/
def size
    (sources : SourceList) :
    Nat :=
  sources.paths.length

/-- Whether no path is registered. -/
def isEmpty
    (sources : SourceList) :
    Bool :=
  sources.paths.isEmpty

/-- The registered paths with their numbers. -/
def toList
    (sources : SourceList) :
    List (SourceId × String) :=
  sources.paths.zipIdx.map Prod.swap

/-- Register a path at the end of the list unless it is there already. -/
def insert
    (sources : SourceList)
    (path : String) :
    SourceList :=
  if present : path ∈ sources.paths then
    sources
  else
    { paths := sources.paths ++ [path]
      distinct := by
        have fresh : ∀ known ∈ sources.paths, known ≠ path := by
          intro known member same
          exact present (same ▸ member)
        simpa [List.nodup_append, sources.distinct] using fresh }

/-- Register a path and tell the number under which it stands from then on. -/
def register
    (sources : SourceList)
    (path : String) :
    SourceId × SourceList :=
  (sources.paths.idxOf path, sources.insert path)

/-- The number told by a registration is the one under which the path is found afterwards. -/
theorem path?_register
    (sources : SourceList)
    (path : String) :
    (sources.register path).2.path? (sources.register path).1 = some path := by
  unfold register insert path?
  split
  · rename_i present
    rw [List.getElem?_eq_getElem (List.idxOf_lt_length_of_mem present)]
    simp
  · rename_i absent
    simp [List.idxOf_eq_length absent]

end SourceList

end Flowmark
