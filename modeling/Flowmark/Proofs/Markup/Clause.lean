import Flowmark.Markup.Clause
import Flowmark.Proofs.Segment.Division
import Flowmark.Skeleton

namespace Flowmark

open Text Argument

/-!
# Clauses written again

A clause is written as its keyword, its name and its details with single blanks between them.  A
clause that was read from a part of a divided text is read again from what is written, and what is
written is again a trimmed part.
-/

namespace Clause

/-- A clause as written: keyword, name and details with single blanks between them. -/
def written
    (clause : Clause) :
    List Char :=
  clause.keyword ++ trailing (clause.name :: clause.details)

/-- What is written of the clause is a trimmed part of a line, and reads as the clause. -/
structure IsWritable
    (table : KeywordTable)
    (clause : Clause) :
    Prop where
  isPart : table.IsPart clause.written
  trimmed : trim clause.written = clause.written
  oneLine : '\n' ∉ clause.written
  readsBack : read table clause.written = .ok clause

/-- A clause is read exactly when its keyword has its tag and its arguments follow. -/
theorem read_eq_ok_iff
    {table : KeywordTable}
    {segment : List Char}
    {clause : Clause} :
    read table segment = .ok clause ↔
      table.tag? (headWord (trimStart segment)) = some clause.tag ∧
        headWord (trimStart segment) = clause.keyword ∧
        all (afterHeadWord (trimStart segment)) = clause.name :: clause.details := by
  cases tagged : table.tag? (headWord (trimStart segment)) with
  | none => simp [read, tagged]
  | some tag =>
      cases arguments : all (afterHeadWord (trimStart segment)) with
      | nil => simp [read, tagged, arguments]
      | cons name details =>
          rcases clause with ⟨tag', keyword', name', details'⟩
          simp [read, tagged, arguments]

/-- Behind a word, a clause is read from what completes the word to a keyword. -/
theorem read_append_iff
    {table : KeywordTable}
    {opening rest : List Char}
    (solid : Solid opening)
    (nonempty : opening ≠ [])
    {clause : Clause} :
    read table (opening ++ rest) = .ok clause ↔
      table.tag? (opening ++ headWord rest) = some clause.tag ∧
        opening ++ headWord rest = clause.keyword ∧
        all (afterHeadWord rest) = clause.name :: clause.details := by
  have headShape : headWord (opening ++ rest) = opening ++ headWord rest :=
    List.takeWhile_append_of_pos (by simpa [Solid] using solid)
  have afterShape : afterHeadWord (opening ++ rest) = afterHeadWord rest :=
    List.dropWhile_append_of_pos (by simpa [Solid] using solid)
  rw [read_eq_ok_iff, trimStart_append solid nonempty, headShape, afterShape]

/-- A clause read from a part of a text without line feeds is writable. -/
theorem isWritable_of_read
    {table : KeywordTable}
    (plain : table.IsPlain)
    {part : List Char}
    (isPart : table.IsPart part)
    (noFeed : '\n' ∉ part)
    {clause : Clause}
    (readsAs : read table (trim part) = .ok clause) :
    clause.IsWritable table := by
  obtain ⟨opening, content, rfl, isOpening, passes⟩ := isPart
  obtain ⟨solid, nonempty⟩ : Solid opening ∧ opening ≠ [] :=
    ⟨isOpening.solid, isOpening.nonempty⟩
  obtain ⟨cut, contentShape⟩ := trimEnd_isPrefix content
  have trimmedPasses : Passes table.seekKeyword [] (trimEnd content) := by
    rw [← contentShape] at passes
    obtain ⟨middle, read, _⟩ := passes_append.mp passes
    exact ⟨middle, read⟩
  have trimmedNoFeed : '\n' ∉ opening ++ trimEnd content := by
    intro member
    apply noFeed
    rcases List.mem_append.mp member with inOpening | inContent
    · exact List.mem_append_left content inOpening
    · exact List.mem_append_right opening ((trimEnd_isPrefix content).subset inContent)
  -- Blanks are trimmed from the content alone, since the opening is a word.
  rw [trim_append solid nonempty] at readsAs
  generalize trimEnd content = rest at *
  obtain ⟨tagged, keyword, arguments⟩ := (read_append_iff solid nonempty).mp readsAs
  have restNoFeed : '\n' ∉ afterHeadWord rest := fun member =>
    trimmedNoFeed (List.mem_append_right opening ((List.dropWhile_suffix _).subset member))
  have writtenShape :
      clause.written =
        opening ++ (headWord rest ++ trailing (all (afterHeadWord rest))) := by
    rw [written, ← keyword, arguments, List.append_assoc]
  have writtenPasses :
      Passes table.seekKeyword []
        (headWord rest ++ trailing (all (afterHeadWord rest))) := by
    apply (KeywordTable.seekKeyword_startsAfresh plain).passes_append_trailing_all
      (detached_afterHeadWord rest)
    rw [headWord_append_afterHeadWord]
    exact trimmedPasses
  have writtenEnds : EndsSolid (trailing (all (afterHeadWord rest))) :=
    endsSolid_trailing (by simp [arguments]) fun _ => endsSolid_of_mem_all
  exact {
    isPart := ⟨opening, _, writtenShape, isOpening, writtenPasses⟩
    trimmed := by
      rw [writtenShape, trim_append solid nonempty, (writtenEnds.append _).trimEnd_eq]
    oneLine := by
      rw [writtenShape]
      simp only [List.mem_append, not_or] at trimmedNoFeed ⊢
      refine ⟨trimmedNoFeed.1, ?_, fun member => restNoFeed (mem_trailing_all (by decide) member)⟩
      exact fun member => trimmedNoFeed.2 ((List.takeWhile_prefix _).subset member)
    readsBack := by
      rw [writtenShape, read_append_iff solid nonempty,
        headWord_append (solid_headWord rest) (detached_trailing _),
        afterHeadWord_append (solid_headWord rest) (detached_trailing _), all_trailing,
        all_joined_all restNoFeed]
      exact ⟨tagged, keyword, arguments⟩ }

/-- The mark of a clause is written as the clause. -/
theorem text_of_entry
    {clause : Clause}
    {location : Location}
    {qualifies : Option MarkId}
    {mark : Mark}
    (isEntry : mark.toEntry = clause.entry location qualifies) :
    mark.text.toList = clause.written := by
  have keyword : mark.keyword = String.ofList clause.keyword := congrArg Entry.keyword isEntry
  have name : mark.name = String.ofList clause.name.text := congrArg Entry.name isEntry
  have description : mark.description = clause.description?.map String.ofList :=
    congrArg Entry.description isEntry
  unfold Mark.text written
  rw [keyword, name, description, trailing, joined_cons]
  cases details : clause.details with
  | nil => simp [description?, details, trailing]
  | cons detail details' =>
      simp [description?, details, trailing, joined]

end Clause

end Flowmark
