import Flowmark.OrderedMap
import Flowmark.Tag
import Flowmark.Text.LetterCase

namespace Flowmark

open Text

/-! # Keyword tables

A keyword table says which tag each keyword stands for.  Keywords are stored in lower case and
looked up without regard to case, so two spellings that differ in case only are one keyword.
-/

/-- The keywords of a run in the order of their first registration, with their tags. -/
structure KeywordTable where
  spellings : OrderedMap (List Char) Tag
  folded : ∀ keyword ∈ spellings.keys, foldCase keyword = keyword
  deriving Repr, DecidableEq

namespace KeywordTable

/-- The table without keywords. -/
def empty : KeywordTable where
  spellings := .empty
  folded := by simp

/-- The keywords in lower case, in the order of their first registration. -/
def keywords
    (table : KeywordTable) :
    List (List Char) :=
  table.spellings.keys

/-- The number of keywords. -/
def size
    (table : KeywordTable) :
    Nat :=
  table.spellings.size

/-- Whether the table has no keyword. -/
def isEmpty
    (table : KeywordTable) :
    Bool :=
  table.spellings.isEmpty

/-- Register a keyword for a tag; a keyword that is there already takes the new tag. -/
def insert
    (table : KeywordTable)
    (keyword : List Char)
    (tag : Tag) :
    KeywordTable where
  spellings := table.spellings.insert (foldCase keyword) tag
  folded := by
    intro known member
    rw [OrderedMap.keys_insert] at member
    split at member
    · exact table.folded known member
    · rcases List.mem_append.mp member with old | new
      · exact table.folded known old
      · rw [List.mem_singleton.mp new, foldCase_foldCase]

/-- Register a list of keywords one after another. -/
def insertAll
    (table : KeywordTable)
    (entries : List (String × Tag)) :
    KeywordTable :=
  entries.foldl (fun table (keyword, tag) => table.insert keyword.toList tag) table

/-- The standard keywords, one for each tag. -/
def standard : KeywordTable :=
  empty.insertAll (Tag.all.map fun tag => (tag.keyword, tag))

/-- The tag of a token, compared without regard to case. -/
def tag?
    (table : KeywordTable)
    (token : List Char) :
    Option Tag :=
  table.spellings.get? (foldCase token)

/-- A token has a tag exactly when it is a keyword up to case. -/
theorem isSome_tag?
    (table : KeywordTable)
    (token : List Char) :
    (table.tag? token).isSome ↔ foldCase token ∈ table.keywords :=
  OrderedMap.isSome_get? table.spellings (foldCase token)

/-- A registration decides the tag of its own keyword and of no other. -/
theorem tag?_insert
    (table : KeywordTable)
    (keyword token : List Char)
    (tag : Tag) :
    (table.insert keyword tag).tag? token =
      if foldCase token = foldCase keyword then some tag else table.tag? token :=
  OrderedMap.get?_insert table.spellings (foldCase keyword) (foldCase token) tag

@[simp] theorem tag?_empty
    (token : List Char) :
    empty.tag? token = none :=
  rfl

end KeywordTable

end Flowmark
