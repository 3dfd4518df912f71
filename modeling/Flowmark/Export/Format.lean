import Flowmark.Export.Document
import Flowmark.Export.Path
import Flowmark.Text.LetterCase

namespace Flowmark

open Text

/-! # Export formats

A run is exported in a format that is chosen by the extension of a path, in any letter case.
-/

/-- A format in which runs are exported. -/
structure ExportFormat where
  name : String
  extensions : List String
  mediaType : String
  write : Run → String

namespace ExportFormat

/-- The indented JSON document of a run. -/
def json : ExportFormat where
  name := "JSON"
  extensions := ["json"]
  mediaType := "application/json"
  write run := run.toJson.render .indented

/-- Every export format. -/
def all : List ExportFormat :=
  [json]

/-- The format for the file that a path names. -/
def ofPath?
    (path : String) :
    Option ExportFormat :=
  match Path.extension? path.toList with
  | none => none
  | some extension =>
      all.find? fun format => format.extensions.contains (String.ofList (foldCase extension))

end ExportFormat

/-- Why a run is not exported. -/
inductive ExportFault where
  /-- There is no format for the extension of the path. -/
  | unsupported (path : String)
  /-- No file can be made at the path. -/
  | unwritable (path : String)
  deriving Repr, DecidableEq

/-- The message of a failed export; the path stands for the words of the system. -/
def ExportFault.message : ExportFault → String
  | unsupported path => "Unsupported: no export format for " ++ path
  | unwritable path => "IO error: cannot write " ++ path

namespace Run

/-- The JSON text of a run, indented or compact. -/
def jsonText
    (run : Run)
    (indented : Bool) :
    String :=
  run.toJson.render (if indented then .indented else .compact)

/--
What an export writes to a path, given the directories that exist below the working directory.
-/
def contentFor
    (run : Run)
    (directories : List (List (List Char)))
    (path : String) :
    Except ExportFault String :=
  match ExportFormat.ofPath? path with
  | none => .error (.unsupported path)
  | some format =>
      if Path.isCreatable directories path.toList then
        .ok (format.write run)
      else
        .error (.unwritable path)

end Run

end Flowmark
