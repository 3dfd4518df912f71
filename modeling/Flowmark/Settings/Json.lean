import Flowmark.Json.Reader
import Flowmark.Settings

namespace Flowmark

/-! # Settings from JSON

Settings are written as an object with the fields `extract` and `model`.  The first is an object
with the field `extra_keywords`, whose own fields are spellings with tags; the second is an object
with the field `workflow`, which is a text or `null`.  A field left out has its standard value, a
field that is not known is skipped, and a known field may not be repeated.  In place of an object
with known fields an array of their values in order may stand.
-/

namespace Json

/--
The value of one known field of an object: nothing in it where the field is left out.  A repeated
field has none.
-/
def field?
    (fields : List (Option String × Json))
    (name : String) :
    Option (Option Json) :=
  match fields.filter (·.1 = some name) with
  | [] => some none
  | [(_, value)] => some (some value)
  | _ => none

/--
The values of known fields in order, from an object or from an array.  Every name in the object
must be a text, and the array may not be longer than the list of names.
-/
def known?
    (names : List String) :
    Json → Option (List (Option Json))
  | .object fields =>
      if fields.all (·.1.isSome) then names.mapM (field? fields) else none
  | .array items =>
      if items.length ≤ names.length then
        some (names.zipIdx.map fun (_, position) => items[position]?)
      else
        none
  | _ => none

/-- The value of the only known field. -/
def only?
    (name : String)
    (value : Json) :
    Option (Option Json) :=
  match known? [name] value with
  | some [field] => some field
  | _ => none

end Json

/-- The tag that a value names: by its name, or by an object whose only field has that name. -/
def Tag.ofJson? : Json → Option Tag
  | .string (some name) => Tag.ofName? name
  | .object [(some name, .null)] => Tag.ofName? name
  | _ => none

namespace Settings

/-- A spelling with its tag. -/
def keywordOfField? : Option String × Json → Option (String × Tag)
  | (some keyword, value) => (Tag.ofJson? value).map fun tag => (keyword, tag)
  | (none, _) => none

/-- The extra keywords that a value lists. -/
def keywordsOfJson? : Json → Option (OrderedMap String Tag)
  | .object fields => (fields.mapM keywordOfField?).map OrderedMap.ofList
  | _ => none

/-- The workflow that a value names. -/
def workflowOfJson? : Json → Option (Option String)
  | .null => some none
  | .string (some name) => some (some name)
  | _ => none

/-- A part of the settings: its standard value where it is left out, else what its value says. -/
def part
    (standard : α)
    (read : Json → Option α) :
    Option Json → Option α
  | none => some standard
  | some value => read value

/-- The extra keywords in the extraction part of the settings. -/
def extractOfJson?
    (value : Json) :
    Option (OrderedMap String Tag) :=
  (Json.only? "extra_keywords" value).bind (part .empty keywordsOfJson?)

/-- The workflow in the model part of the settings. -/
def modelOfJson?
    (value : Json) :
    Option (Option String) :=
  (Json.only? "workflow" value).bind (part none workflowOfJson?)

/-- The settings that a value describes. -/
def ofJson?
    (value : Json) :
    Option Settings :=
  match Json.known? ["extract", "model"] value with
  | some [extract, model] =>
      match part .empty extractOfJson? extract, part none modelOfJson? model with
      | some extraKeywords, some workflow => some { extraKeywords, workflow }
      | _, _ => none
  | _ => none

/-- The settings that a JSON text describes. -/
def read?
    (text : String) :
    Option Settings :=
  (Json.read? text.toList).bind ofJson?

end Settings

end Flowmark
