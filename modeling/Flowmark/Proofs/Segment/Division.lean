import Flowmark.Segment
import Flowmark.Proofs.Argument.Respacing

namespace Flowmark

open Text Argument

/-!
# Dividing a text again

Under keywords without blanks and quotes, each part of a divided text is a keyword found at once and
a text in which no keyword is found.  Such parts written on one line with single blanks between them
are the segments of that line.
-/

namespace Division

/-- Putting two texts in front of a division, one after the other, puts both there at once. -/
theorem prepend_prepend
    (first second : List Char)
    (division : Division) :
    (division.prepend second).prepend first = division.prepend (first ++ second) := by
  simp [prepend]

end Division

namespace KeywordTable

/-- No keyword of the table contains a blank or a quote. -/
def IsPlain
    (table : KeywordTable) :
    Prop :=
  ∀ keyword ∈ table.keywords, ∀ c ∈ keyword, isBlank c = false ∧ c ≠ '"' ∧ c ≠ '\''

instance decidableIsPlain
    (table : KeywordTable) :
    Decidable table.IsPlain :=
  decidable_of_iff
    (table.keywords.all (·.all fun c => !isBlank c && c != '"' && c != '\'') = true)
    (by simp [IsPlain, and_assoc])

/-- One character of the search for a keyword, the state being the buffer; it stops at a keyword. -/
def seekKeyword
    (table : KeywordTable)
    (buffer : List Char)
    (c : Char) :
    Option (List Char) :=
  match table.extent (buffer ++ [c]) with
  | .apart => some []
  | .begun => some (buffer ++ [c])
  | .whole => none

/-- A buffer with a character that stands in no keyword begins none. -/
theorem extent_eq_apart
    {table : KeywordTable}
    {c : Char}
    (foreign : ∀ keyword ∈ table.keywords, c.toLower ∉ keyword)
    (buffer : List Char) :
    table.extent (buffer ++ [c]) = .apart := by
  have member : c.toLower ∈ foldCase (buffer ++ [c]) := by simp [foldCase]
  have notWhole : foldCase (buffer ++ [c]) ∉ table.keywords :=
    fun isKeyword => foreign _ isKeyword member
  have notBegun : ¬ table.keywords.any (foldCase (buffer ++ [c])).isPrefixOf = true := by
    intro some
    obtain ⟨keyword, isKeyword, isPrefix⟩ := List.any_eq_true.mp some
    exact foreign keyword isKeyword ((List.isPrefixOf_iff_prefix.mp isPrefix).subset member)
  unfold extent
  rw [if_neg notWhole, if_neg notBegun]

/-- In a plain table the search for a keyword starts afresh at blanks and quotes. -/
theorem seekKeyword_startsAfresh
    {table : KeywordTable}
    (plain : table.IsPlain) :
    StartsAfresh table.seekKeyword [] where
  blank := by
    intro buffer c blank
    have foreign : ∀ keyword ∈ table.keywords, c.toLower ∉ keyword := by
      intro keyword isKeyword member
      have solid := (plain keyword isKeyword _ member).1
      rw [isBlank_toLower, blank] at solid
      exact Bool.noConfusion solid
    simp [seekKeyword, extent_eq_apart foreign buffer]
  quote := by
    rintro c isQuote
    have foreign : ∀ keyword ∈ table.keywords, c.toLower ∉ keyword := by
      intro keyword isKeyword member
      obtain ⟨_, notDouble, notSingle⟩ := plain keyword isKeyword _ member
      rcases isQuote with rfl | rfl
      · exact notDouble rfl
      · exact notSingle rfl
    exact Or.inr fun buffer => by simp [seekKeyword, extent_eq_apart foreign buffer]

/-- Text that the search passes is no part of a segment, but for the buffer that it leaves. -/
theorem divideFrom_of_passed
    {table : KeywordTable}
    {buffer passed final : List Char}
    (read : passed.foldlM table.seekKeyword buffer = some final) :
    ∃ dropped,
      buffer ++ passed = dropped ++ final ∧
        ∀ rest,
          table.divideFrom buffer (passed ++ rest) =
            (table.divideFrom final rest).prepend dropped := by
  induction passed generalizing buffer with
  | nil =>
      cases read
      exact ⟨[], by simp, fun rest => rfl⟩
  | cons c passed inductionHypothesis =>
      simp only [List.foldlM_cons, Option.bind_eq_bind, Option.bind_eq_some_iff] at read
      obtain ⟨next, stepped, readOn⟩ := read
      obtain ⟨dropped, shape, divides⟩ := inductionHypothesis readOn
      unfold seekKeyword at stepped
      cases reach : table.extent (buffer ++ [c]) with
      | apart =>
          rw [reach] at stepped
          cases stepped
          refine ⟨buffer ++ [c] ++ dropped, ?_, fun rest => ?_⟩
          · simpa using shape
          · simp only [List.cons_append, divideFrom, reach, divides rest,
              Division.prepend_prepend]
      | begun =>
          rw [reach] at stepped
          cases stepped
          refine ⟨dropped, ?_, fun rest => ?_⟩
          · simpa using shape
          · simp only [List.cons_append, divideFrom, reach, divides rest]
      | whole =>
          rw [reach] at stepped
          cases stepped

/-! ## The parts of a division -/

/-- A keyword that is found where a text starts with it, before any other. -/
structure IsOpening
    (table : KeywordTable)
    (opening : List Char) :
    Prop where
  nonempty : opening ≠ []
  solid : Solid opening
  found : ∀ rest,
    table.divideFrom [] (opening ++ rest) = (table.divideFrom [] rest).openPart opening

/-- A keyword found at once, followed by text in which no keyword is found. -/
def IsPart
    (table : KeywordTable)
    (part : List Char) :
    Prop :=
  ∃ opening content,
    part = opening ++ content ∧
      table.IsOpening opening ∧
      Passes table.seekKeyword [] content

/-- In a plain table a text that is a keyword has no blank. -/
theorem solid_of_foldCase_mem
    {table : KeywordTable}
    (plain : table.IsPlain)
    {text : List Char}
    (isKeyword : foldCase text ∈ table.keywords) :
    Solid text :=
  solid_foldCase_iff.mp fun c member => (plain _ isKeyword c member).1

/--
The invariant of a division: its parts start with a keyword found at once, and what stands before
them continues the buffer without a keyword, or is empty where the buffer belongs to a keyword.
-/
theorem divideFrom_parts
    {table : KeywordTable}
    (plain : table.IsPlain)
    {buffer : List Char}
    (grown : ∀ rest, table.divideFrom [] (buffer ++ rest) = table.divideFrom buffer rest)
    (text : List Char) :
    (∀ part ∈ (table.divideFrom buffer text).parts, table.IsPart part) ∧
      ((table.divideFrom buffer text).prose = [] ∨
        ∃ content,
          (table.divideFrom buffer text).prose = buffer ++ content ∧
            Passes table.seekKeyword buffer content) := by
  induction text generalizing buffer with
  | nil =>
      refine ⟨by simp [divideFrom], Or.inr ⟨[], ?_, passes_nil _ _⟩⟩
      simp [divideFrom]
  | cons c rest inductionHypothesis =>
      -- A dropped or found buffer starts the next one empty, and a begun one is grown by `c`.
      cases reach : table.extent (buffer ++ [c]) with
      | apart =>
          obtain ⟨parts, prose⟩ := @inductionHypothesis [] fun _ => rfl
          have stepped : table.seekKeyword buffer c = some [] := by simp [seekKeyword, reach]
          simp only [divideFrom, reach, Division.prepend]
          refine ⟨parts, Or.inr ?_⟩
          rcases prose with empty | ⟨content, shape, passes⟩
          · refine ⟨[c], by simp [empty], ?_⟩
            exact passes_cons.mpr ⟨[], stepped, passes_nil _ _⟩
          · refine ⟨c :: content, by simp [shape], ?_⟩
            exact passes_cons.mpr ⟨[], stepped, passes⟩
      | begun =>
          have stepped : table.seekKeyword buffer c = some (buffer ++ [c]) := by
            simp [seekKeyword, reach]
          have grownOn : ∀ after,
              table.divideFrom [] (buffer ++ [c] ++ after) =
                table.divideFrom (buffer ++ [c]) after := by
            intro after
            rw [List.append_assoc, grown]
            simp [divideFrom, reach]
          obtain ⟨parts, prose⟩ := inductionHypothesis grownOn
          simp only [divideFrom, reach]
          refine ⟨parts, ?_⟩
          rcases prose with empty | ⟨content, shape, passes⟩
          · exact Or.inl empty
          · refine Or.inr ⟨c :: content, by simp [shape], ?_⟩
            exact passes_cons.mpr ⟨_, stepped, passes⟩
      | whole =>
          obtain ⟨parts, prose⟩ := @inductionHypothesis [] fun _ => rfl
          have opening : table.IsOpening (buffer ++ [c]) := {
            nonempty := by simp
            solid := by
              have isKeyword := (extent_eq_whole_iff table (buffer ++ [c])).mp reach
              exact solid_of_foldCase_mem plain ((isSome_tag? table _).mp isKeyword)
            found := by
              intro after
              rw [List.append_assoc, grown]
              simp [divideFrom, reach] }
          simp only [divideFrom, reach, Division.openPart]
          refine ⟨?_, Or.inl trivial⟩
          intro part member
          rcases List.mem_cons.mp member with rfl | inRest
          · refine ⟨buffer ++ [c], _, rfl, opening, ?_⟩
            rcases prose with empty | ⟨content, shape, passes⟩
            · rw [empty]
              exact passes_nil _ _
            · rw [shape]
              exact passes
          · exact parts part inRest

/-- The parts of a division are parts in the sense of the invariant. -/
theorem isPart_of_mem_divide
    {table : KeywordTable}
    (plain : table.IsPlain)
    {text part : List Char}
    (member : part ∈ (table.divide text).parts) :
    table.IsPart part :=
  (divideFrom_parts plain (fun _ => rfl) text).1 part member

/-! ## Parts on one line -/

/-- A part is divided into itself alone. -/
theorem divide_part
    {table : KeywordTable}
    {part : List Char}
    (isPart : table.IsPart part) :
    table.divide part = ⟨[], [part]⟩ := by
  obtain ⟨opening, content, rfl, isOpening, final, read⟩ := isPart
  obtain ⟨dropped, shape, divides⟩ := divideFrom_of_passed read
  have contentDivides : table.divideFrom [] content = ⟨content, []⟩ := by
    have atEnd := divides []
    rw [List.append_nil] at atEnd
    rw [atEnd, divideFrom, Division.prepend, ← shape, List.nil_append]
  rw [divide, isOpening.found, contentDivides, Division.openPart]

/-- A part before a blank and text that opens with a keyword stays a part of its own. -/
theorem divide_part_append
    {table : KeywordTable}
    (plain : table.IsPlain)
    {part : List Char}
    (isPart : table.IsPart part)
    {rest : List Char}
    (restOpens : (table.divide rest).prose = []) :
    table.divide (part ++ ' ' :: rest) = ⟨[], (part ++ [' ']) :: (table.divide rest).parts⟩ := by
  obtain ⟨opening, content, rfl, isOpening, final, read⟩ := isPart
  have readBlank : (content ++ [' ']).foldlM table.seekKeyword [] = some [] := by
    simp [read, (seekKeyword_startsAfresh plain).blank final ' ' (by decide)]
  obtain ⟨dropped, shape, divides⟩ := divideFrom_of_passed readBlank
  have contentDivides :
      table.divideFrom [] (content ++ ' ' :: rest) =
        (table.divide rest).prepend (content ++ [' ']) := by
    have atRest := divides rest
    rw [List.append_assoc] at atRest
    rw [show content ++ ' ' :: rest = content ++ ([' '] ++ rest) from rfl, atRest, divide]
    simp only [List.nil_append, List.append_nil] at shape
    rw [shape]
  rw [divide, List.append_assoc, isOpening.found, contentDivides]
  simp [Division.openPart, Division.prepend, restOpens]

/-- The segments of parts have the trimmed parts as their texts, wherever they start. -/
theorem map_text_ofParts
    (offset : Nat)
    (parts : List (List Char)) :
    (Segment.ofParts offset parts).map Segment.text = parts.map trim := by
  induction parts generalizing offset with
  | nil => rfl
  | cons part parts inductionHypothesis =>
      simp [Segment.ofParts, Segment.ofPart, inductionHypothesis]

/-- The texts of segments are the trimmed parts of the division. -/
theorem map_text_segments
    (table : KeywordTable)
    (text : List Char) :
    (table.segments text).map Segment.text = (table.divide text).parts.map trim :=
  map_text_ofParts _ _

/-- Every segment comes from a part that was trimmed. -/
theorem exists_part_of_mem_segments
    {table : KeywordTable}
    {text : List Char}
    {segment : Segment}
    (isSegment : segment ∈ table.segments text) :
    ∃ part ∈ (table.divide text).parts, trim part = segment.text := by
  have isTrimmed : segment.text ∈ (table.divide text).parts.map trim := by
    rw [← map_text_segments]
    exact List.mem_map_of_mem isSegment
  exact List.mem_map.mp isTrimmed

/-- Trimmed parts on one line are the segments of the line. -/
theorem segments_intercalate
    {table : KeywordTable}
    (plain : table.IsPlain)
    {parts : List (List Char)}
    (areParts : ∀ part ∈ parts, table.IsPart part ∧ trim part = part) :
    (table.segments ([' '].intercalate parts)).map Segment.text = parts := by
  have divides :
      (table.divide ([' '].intercalate parts)).prose = [] ∧
        (table.divide ([' '].intercalate parts)).parts.map trim = parts := by
    induction parts with
    | nil => exact ⟨rfl, rfl⟩
    | cons part rest inductionHypothesis =>
        obtain ⟨isPart, trimmed⟩ := areParts part (by simp)
        obtain ⟨restOpens, restParts⟩ := inductionHypothesis fun other member =>
          areParts other (List.mem_cons_of_mem _ member)
        cases rest with
        | nil =>
            rw [List.intercalate_singleton, divide_part isPart]
            exact ⟨rfl, by simp [trimmed]⟩
        | cons next rest =>
            rw [List.intercalate_cons_cons, List.append_assoc, List.singleton_append,
              divide_part_append plain isPart restOpens]
            refine ⟨rfl, ?_⟩
            obtain ⟨opening, content, shape, isOpening, _⟩ := isPart
            have withBlank : trim (part ++ [' ']) = trim part := by
              rw [shape, List.append_assoc,
                trim_append isOpening.solid isOpening.nonempty,
                trim_append isOpening.solid isOpening.nonempty,
                trimEnd_append_blank (by decide)]
            rw [List.map_cons, withBlank, trimmed, restParts]
  rw [map_text_segments]
  exact divides.2

end KeywordTable

end Flowmark
