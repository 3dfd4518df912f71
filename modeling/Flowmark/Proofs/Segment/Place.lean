import Flowmark.Proofs.Text.Words
import Flowmark.Segment

namespace Flowmark

open Text

/-!
# Places of segments

A segment lies in its text at the byte at which it starts, and segments lie one after another.
-/

namespace Text

/-- A text that is not empty has at least one byte. -/
theorem byteWidth_pos
    {text : List Char}
    (nonempty : text ≠ []) :
    0 < byteWidth text := by
  cases text with
  | nil => exact absurd rfl nonempty
  | cons c rest => exact Nat.add_pos_left (Char.utf8Size_pos c) _

/-- What stands before a byte of a text is determined. -/
theorem append_inj_of_byteWidth
    {before before' after after' : List Char}
    (same : before ++ after = before' ++ after')
    (sameWidth : byteWidth before = byteWidth before') :
    before = before' ∧ after = after' := by
  have notLonger : ∀ {front back : List Char},
      byteWidth (front ++ back) = byteWidth front → back = [] := by
    intro front back width
    by_contra nonempty
    have positive := byteWidth_pos nonempty
    rw [byteWidth_append] at width
    omega
  rcases List.append_eq_append_iff.mp same with ⟨between, rfl, rfl⟩ | ⟨between, rfl, rfl⟩
  · rw [notLonger sameWidth.symm]
    simp
  · rw [notLonger sameWidth]
    simp

/-- A text is what is trimmed off in front, the trimmed text, and what is trimmed off behind. -/
theorem exists_append_trim
    (text : List Char) :
    ∃ behind, text = text.takeWhile isBlank ++ (trim text ++ behind) := by
  obtain ⟨behind, shape, _⟩ := exists_append_trimEnd (trimStart text)
  refine ⟨behind, ?_⟩
  rw [trim, ← shape, trimStart, List.takeWhile_append_dropWhile]

end Text

namespace Segment

/-- No segment starts before the byte at which the parts start. -/
theorem start_ofParts_le
    {offset : Nat}
    {parts : List (List Char)}
    {segment : Segment}
    (isSegment : segment ∈ ofParts offset parts) :
    offset ≤ segment.start := by
  induction parts generalizing offset with
  | nil => cases isSegment
  | cons part parts inductionHypothesis =>
      rcases List.mem_cons.mp isSegment with rfl | isLater
      · exact Nat.le_add_right _ _
      · exact Nat.le_trans (Nat.le_add_right _ _) (inductionHypothesis isLater)

/-- A segment ends no later than the part from which it was trimmed. -/
theorem stop_ofPart_le
    (offset : Nat)
    (part : List Char) :
    (ofPart offset part).stop ≤ offset + byteWidth part := by
  obtain ⟨behind, shape⟩ := exists_append_trim part
  have width := congrArg byteWidth shape
  rw [byteWidth_append, byteWidth_append] at width
  simp only [stop, ofPart]
  omega

/-- The segments of parts follow each other without overlapping. -/
theorem pairwise_ofParts
    (offset : Nat)
    (parts : List (List Char)) :
    (ofParts offset parts).Pairwise fun segment later => segment.stop ≤ later.start := by
  induction parts generalizing offset with
  | nil => exact .nil
  | cons part parts inductionHypothesis =>
      refine .cons ?_ (inductionHypothesis _)
      intro later isLater
      exact Nat.le_trans (stop_ofPart_le offset part) (start_ofParts_le isLater)

/-- The segments up to one of them are those of the parts up to its part. -/
theorem exists_part_of_ofParts_eq
    {offset : Nat}
    {parts : List (List Char)}
    {before later : List Segment}
    {segment : Segment}
    (shape : ofParts offset parts = before ++ segment :: later) :
    ∃ earlier part rest,
      parts = earlier ++ part :: rest ∧
        ofParts offset earlier = before ∧
        segment = ofPart (offset + byteWidth earlier.flatten) part := by
  induction before generalizing offset parts with
  | nil =>
      cases parts with
      | nil => cases shape
      | cons part rest =>
          obtain ⟨rfl, _⟩ := List.cons.inj shape
          exact ⟨[], part, rest, rfl, rfl, rfl⟩
  | cons first before inductionHypothesis =>
      cases parts with
      | nil => cases shape
      | cons firstPart parts =>
          obtain ⟨rfl, laterShape⟩ := List.cons.inj shape
          obtain ⟨earlier, part, rest, rfl, rfl, rfl⟩ := inductionHypothesis laterShape
          refine ⟨firstPart :: earlier, part, rest, rfl, rfl, ?_⟩
          rw [List.flatten_cons, byteWidth_append, Nat.add_assoc]

end Segment

namespace KeywordTable

/-- A text that ends before one of its parts is divided into the parts before that one. -/
theorem divideFrom_take
    {table : KeywordTable}
    {buffer : List Char}
    (grown : ∀ rest, table.divideFrom [] (buffer ++ rest) = table.divideFrom buffer rest)
    (text : List Char)
    (count : Nat) :
    table.divideFrom []
        ((table.divideFrom buffer text).prose ++
          ((table.divideFrom buffer text).parts.take count).flatten) =
      { prose := (table.divideFrom buffer text).prose
        parts := (table.divideFrom buffer text).parts.take count } := by
  induction text generalizing buffer count with
  | nil => simpa [divideFrom] using grown []
  | cons c rest inductionHypothesis =>
      have restTaken := fun count => @inductionHypothesis [] (fun _ => rfl) count
      cases reach : table.extent (buffer ++ [c]) with
      | apart =>
          simp [divideFrom, reach, Division.prepend, grown, restTaken count]
      | begun =>
          simp only [divideFrom, reach]
          refine inductionHypothesis (fun after => ?_) count
          simp [grown, divideFrom, reach]
      | whole =>
          cases count with
          | zero => simp [divideFrom, reach, Division.openPart]
          | succ count =>
              simp [divideFrom, reach, Division.openPart, grown, restTaken count]

/-- A text that ends before one of its segments, or before blanks there, has the segments before. -/
theorem exists_text_of_segments_eq
    {table : KeywordTable}
    {text : List Char}
    {before later : List Segment}
    {segment : Segment}
    (shape : table.segments text = before ++ segment :: later) :
    ∃ front gap back,
      text = front ++ (gap ++ (segment.text ++ back)) ∧
        (∀ c ∈ gap, isBlank c = true) ∧
        byteWidth (front ++ gap) = segment.start ∧
        table.segments front = before := by
  obtain ⟨earlier, part, rest, parts, isBefore, rfl⟩ := Segment.exists_part_of_ofParts_eq shape
  obtain ⟨behind, partShape⟩ := exists_append_trim part
  let front := (table.divide text).prose ++ earlier.flatten
  have frontDivided : table.divide front = ⟨(table.divide text).prose, earlier⟩ := by
    have taken := @divideFrom_take table [] (fun _ => rfl) text earlier.length
    rw [show (table.divideFrom [] text).parts = earlier ++ part :: rest from parts,
      List.take_left] at taken
    exact taken
  refine ⟨front, part.takeWhile isBlank, behind ++ rest.flatten, ?_, ?_, ?_, ?_⟩
  · calc
      text = (table.divide text).prose ++ (earlier ++ part :: rest).flatten := by
        rw [← parts]
        exact (table.text_divide text).symm
      _ = front ++ (part ++ rest.flatten) := by simp [front]
      _ = front ++ (part.takeWhile isBlank ++ (trim part ++ (behind ++ rest.flatten))) := by
        conv_lhs => rw [partShape]
        simp only [List.append_assoc]
  · exact fun c member => List.mem_takeWhile_imp member
  · simp only [front, Segment.ofPart, byteWidth_append]
  · rw [segments, frontDivided]
    exact isBefore

/-- A segment lies in the text at the byte at which it starts. -/
theorem place_of_mem_segments
    {table : KeywordTable}
    {text : List Char}
    {segment : Segment}
    (isSegment : segment ∈ table.segments text) :
    ∃ before after,
      text = before ++ (segment.text ++ after) ∧ byteWidth before = segment.start := by
  obtain ⟨earlier, later, shape⟩ := List.append_of_mem isSegment
  obtain ⟨front, gap, back, textShape, _, atStart, _⟩ := exists_text_of_segments_eq shape
  exact ⟨front ++ gap, back, by rw [textShape, List.append_assoc], atStart⟩

/-- Segments lie one after another. -/
theorem pairwise_segments
    (table : KeywordTable)
    (text : List Char) :
    (table.segments text).Pairwise fun segment later => segment.stop ≤ later.start :=
  Segment.pairwise_ofParts _ _

/-- Two different segments do not overlap. -/
theorem apart_of_mem_segments
    {table : KeywordTable}
    {text : List Char}
    {first second : Segment}
    (isFirst : first ∈ table.segments text)
    (isSecond : second ∈ table.segments text) :
    first = second ∨ first.stop ≤ second.start ∨ second.stop ≤ first.start := by
  have inOrder := table.pairwise_segments text
  refine List.Pairwise.forall_of_forall_of_flip
    (R := fun first second : Segment =>
      first = second ∨ first.stop ≤ second.start ∨ second.stop ≤ first.start)
    (fun _ _ => Or.inl rfl) ?_ ?_ isFirst isSecond
  · exact inOrder.imp fun apart => Or.inr (Or.inl apart)
  · exact inOrder.imp fun apart => Or.inr (Or.inr apart)

end KeywordTable

end Flowmark
