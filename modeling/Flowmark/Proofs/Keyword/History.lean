import Flowmark.Proofs.Keyword.Bytes
import Flowmark.Proofs.OrderedMap
import Mathlib.Data.Finset.Card

namespace Flowmark

open Text

/-!
# Tables and their registrations

A table is what a list of registrations made of it.  It lists each keyword once, where it was first
registered, and the last registration decides its tag.  How a buffer compares with the keywords
depends on which keywords were registered, and not on their order, their tags or their spellings.
-/

namespace KeywordTable

/-- The tag of the last registration for a token, compared without regard to case. -/
def lastTag?
    (entries : List (String × Tag))
    (token : List Char) :
    Option Tag :=
  (entries.findRev? fun entry => foldCase entry.1.toList = foldCase token).map Prod.snd

/-- A buffer is a proper beginning of a keyword, compared without regard to case. -/
def Begins
    (buffer keyword : List Char) :
    Prop :=
  foldCase buffer <+: foldCase keyword ∧ foldCase buffer ≠ foldCase keyword

/-! ## Many registrations -/

/-- Two lists of registrations are entered one after the other. -/
theorem insertAll_append
    (table : KeywordTable)
    (earlier later : List (String × Tag)) :
    table.insertAll (earlier ++ later) = (table.insertAll earlier).insertAll later :=
  List.foldl_append

/-- A table stores keywords in lower case. -/
theorem spellings_insertAll
    (table : KeywordTable)
    (entries : List (String × Tag)) :
    (table.insertAll entries).spellings =
      table.spellings.insertAll (entries.map fun entry => (foldCase entry.1.toList, entry.2)) := by
  induction entries generalizing table with
  | nil => rfl
  | cons entry entries inductionHypothesis =>
      exact inductionHypothesis (table.insert entry.1.toList entry.2)

/-- A table lists each keyword once, where it first came. -/
theorem keywords_insertAll
    (table : KeywordTable)
    (entries : List (String × Tag)) :
    (table.insertAll entries).keywords =
      (table.keywords ++ entries.map fun entry => foldCase entry.1.toList).eraseDups := by
  rw [keywords, spellings_insertAll, OrderedMap.keys_insertAll, List.map_map]
  rfl

/-- The last registration for a token decides its tag, and without one the table before does. -/
theorem tag?_insertAll
    (table : KeywordTable)
    (entries : List (String × Tag))
    (token : List Char) :
    (table.insertAll entries).tag? token = (lastTag? entries token).or (table.tag? token) := by
  have lastFolded :
      ((entries.map fun entry => (foldCase entry.1.toList, entry.2)).findRev?
          fun entry => entry.1 = foldCase token).map Prod.snd =
        lastTag? entries token := by
    rw [lastTag?, List.findRev?_eq_find?_reverse, List.findRev?_eq_find?_reverse,
      ← List.map_reverse, List.find?_map, Option.map_map]
    rfl
  rw [tag?, spellings_insertAll, OrderedMap.get?_insertAll, lastFolded]
  rfl

/-- The keywords of a table that started empty are those that were registered. -/
theorem mem_keywords_insertAll
    {entries : List (String × Tag)}
    {keyword : List Char} :
    keyword ∈ (empty.insertAll entries).keywords ↔
      ∃ entry ∈ entries, foldCase entry.1.toList = keyword := by
  rw [keywords_insertAll, List.mem_eraseDups]
  exact List.mem_map

/-! ## Buffers -/

variable {table : KeywordTable}

/-- A token has no tag exactly where it is no keyword. -/
theorem tag?_eq_none_iff
    {token : List Char} :
    table.tag? token = none ↔ foldCase token ∉ table.keywords := by
  rw [← isSome_tag?, Option.not_isSome_iff_eq_none]

/-- A buffer has begun where it is no keyword and some keyword begins with it. -/
theorem extent_eq_begun_iff
    {buffer : List Char} :
    table.extent buffer = .begun ↔
      table.tag? buffer = none ∧ ∃ keyword ∈ table.keywords, foldCase buffer <+: keyword := by
  rw [tag?_eq_none_iff, extent]
  by_cases isKeyword : foldCase buffer ∈ table.keywords
  · simp [isKeyword]
  · simp [isKeyword, List.isPrefixOf_iff_prefix]

/-- A buffer is apart where it is no keyword and begins none. -/
theorem extent_eq_apart_iff
    {buffer : List Char} :
    table.extent buffer = .apart ↔
      table.tag? buffer = none ∧ ∀ keyword ∈ table.keywords, ¬ foldCase buffer <+: keyword := by
  rw [tag?_eq_none_iff, extent]
  by_cases isKeyword : foldCase buffer ∈ table.keywords
  · simp [isKeyword]
  · simp [isKeyword, List.isPrefixOf_iff_prefix]

/-- Tables with the same keywords compare buffers alike. -/
theorem extent_congr
    {other : KeywordTable}
    (sameKeywords : ∀ keyword, keyword ∈ other.keywords ↔ keyword ∈ table.keywords)
    (buffer : List Char) :
    other.extent buffer = table.extent buffer := by
  cases reach : table.extent buffer with
  | whole =>
      rw [extent_eq_whole_iff, isSome_tag?, ← sameKeywords] at reach
      rwa [extent_eq_whole_iff, isSome_tag?]
  | begun =>
      simp only [extent_eq_begun_iff, tag?_eq_none_iff, ← sameKeywords] at reach
      rwa [extent_eq_begun_iff, tag?_eq_none_iff]
  | apart =>
      simp only [extent_eq_apart_iff, tag?_eq_none_iff, ← sameKeywords] at reach
      rwa [extent_eq_apart_iff, tag?_eq_none_iff]

/-! ## What a table knows of its registrations -/

/--
A table reflects a list of registrations: it lists each keyword once, where it first came, knows the
tag of the last registration for each token, and compares buffers with just these keywords.  Whether
characters or bytes are compared makes no difference.
-/
structure Reflects
    (table : KeywordTable)
    (entries : List (String × Tag)) :
    Prop where
  keywords : table.keywords = (entries.map fun entry => foldCase entry.1.toList).eraseDups
  size : table.size = (entries.map fun entry => foldCase entry.1.toList).toFinset.card
  tag : ∀ token, table.tag? token = lastTag? entries token
  lookUp : ∀ token, table.lookUp? token = table.tag? token
  scan : ∀ buffer,
    Extent.scan (bytes buffer) .apart (table.keywords.map bytes) = table.extent buffer
  whole : ∀ buffer, table.extent buffer = .whole ↔ (table.tag? buffer).isSome
  begun : ∀ buffer,
    table.extent buffer = .begun ↔
      table.tag? buffer = none ∧ ∃ entry ∈ entries, Begins buffer entry.1.toList
  apart : ∀ buffer,
    table.extent buffer = .apart ↔
      table.tag? buffer = none ∧ ∀ entry ∈ entries, ¬ Begins buffer entry.1.toList
  anyOrder : ∀ others : List (String × Tag),
    (∀ keyword,
      (∃ entry ∈ others, foldCase entry.1.toList = keyword) ↔
        ∃ entry ∈ entries, foldCase entry.1.toList = keyword) →
    ∀ buffer, (empty.insertAll others).extent buffer = table.extent buffer

/-- A buffer that is no keyword begins a registered keyword where it begins one of the table. -/
theorem exists_begins_iff
    {entries : List (String × Tag)}
    {buffer : List Char}
    (noTag : (empty.insertAll entries).tag? buffer = none) :
    (∃ keyword ∈ (empty.insertAll entries).keywords, foldCase buffer <+: keyword) ↔
      ∃ entry ∈ entries, Begins buffer entry.1.toList := by
  constructor
  · rintro ⟨keyword, isKeyword, isPrefix⟩
    obtain ⟨entry, isEntry, rfl⟩ := mem_keywords_insertAll.mp isKeyword
    refine ⟨entry, isEntry, isPrefix, fun same => ?_⟩
    exact tag?_eq_none_iff.mp noTag (same ▸ isKeyword)
  · rintro ⟨entry, isEntry, isPrefix, _⟩
    exact ⟨_, mem_keywords_insertAll.mpr ⟨entry, isEntry, rfl⟩, isPrefix⟩

/-- A table that started empty reflects what was registered. -/
theorem reflects_insertAll_empty
    (entries : List (String × Tag)) :
    (empty.insertAll entries).Reflects entries where
  keywords := by
    rw [keywords_insertAll]
    rfl
  size := by
    have distinct : (empty.insertAll entries).keywords.Nodup :=
      (empty.insertAll entries).spellings.distinct
    calc
      (empty.insertAll entries).size = (empty.insertAll entries).keywords.length :=
        (List.length_map _).symm
      _ = (empty.insertAll entries).keywords.toFinset.card :=
        (List.toFinset_card_of_nodup distinct).symm
      _ = (entries.map fun entry => foldCase entry.1.toList).toFinset.card := by
        congr 1
        ext keyword
        rw [List.mem_toFinset, List.mem_toFinset, mem_keywords_insertAll, List.mem_map]
  tag := by
    intro token
    rw [tag?_insertAll, tag?_empty, Option.or_none]
  lookUp := lookUp?_eq_tag? _
  scan := scan_keywords _
  whole := extent_eq_whole_iff _
  begun := by
    intro buffer
    rw [extent_eq_begun_iff, and_congr_right_iff]
    exact exists_begins_iff
  apart := by
    intro buffer
    rw [extent_eq_apart_iff, and_congr_right_iff]
    intro noTag
    have noneBegins := not_congr (exists_begins_iff noTag)
    simpa only [not_exists, not_and] using noneBegins
  anyOrder := by
    intro others sameKeywords
    apply extent_congr
    intro keyword
    rw [mem_keywords_insertAll, mem_keywords_insertAll]
    exact sameKeywords keyword

/--
Whatever is registered in the empty table or after the standard keywords, the table reflects all
registrations in order.
-/
theorem reflects_insertAll
    (entries : List (String × Tag)) :
    (empty.insertAll entries).Reflects entries ∧
      (standard.insertAll entries).Reflects
        ((Tag.all.map fun tag => (tag.keyword, tag)) ++ entries) := by
  refine ⟨reflects_insertAll_empty entries, ?_⟩
  rw [standard, ← insertAll_append]
  exact reflects_insertAll_empty _

end KeywordTable

end Flowmark
