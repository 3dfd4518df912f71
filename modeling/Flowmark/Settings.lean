import Flowmark.Keyword.Table

namespace Flowmark

/-! # Settings

The settings of a run are extra spellings of keywords and the name of the workflow that is to be
the root of the model.  Extra spellings are kept as given: spellings that differ in case are
different here, and become one keyword only in the table.
-/

/-- The settings of a run. -/
structure Settings where
  extraKeywords : OrderedMap String Tag
  workflow : Option String
  deriving Repr, DecidableEq

namespace Settings

/-- Settings without extra keywords and without a workflow. -/
def standard : Settings where
  extraKeywords := .empty
  workflow := none

instance : Inhabited Settings :=
  ⟨standard⟩

/-- Add a spelling for a tag; a spelling that is there already takes the new tag. -/
def addKeyword
    (settings : Settings)
    (keyword : String)
    (tag : Tag) :
    Settings :=
  { settings with extraKeywords := settings.extraKeywords.insert keyword tag }

/-- Add spellings one after another. -/
def addKeywords
    (settings : Settings)
    (keywords : List (String × Tag)) :
    Settings :=
  { settings with extraKeywords := settings.extraKeywords.insertAll keywords }

/-- Choose the root of the model by name. -/
def chooseWorkflow
    (settings : Settings)
    (name : String) :
    Settings :=
  { settings with workflow := some name }

/-- The standard keywords followed by the extra spellings. -/
def keywordTable
    (settings : Settings) :
    KeywordTable :=
  KeywordTable.standard.insertAll settings.extraKeywords.entries

end Settings

end Flowmark
