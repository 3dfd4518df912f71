import Mathlib.Data.List.DropRight
import Flowmark.Proofs.Segment.Division
import Flowmark.Proofs.Segment.Place
import Flowmark.Proofs.Text.LetterCase

namespace Flowmark

open Text

/-!
# Segments of a respelled text

Keywords are found without regard to case, so the segments of a text stay at their places when the
case of letters changes.  Where letters change in the first words of segments only, the segments
differ in their first words only.
-/

/-- Where two lists agree under one map, they agree under each map that it determines. -/
theorem map_eq_map_of_pointwise
    {α β γ : Type}
    {f : α → β}
    {g : α → γ}
    {first second : List α}
    (same : first.map f = second.map f)
    (determined : ∀ a ∈ first, ∀ b ∈ second, f a = f b → g a = g b) :
    first.map g = second.map g := by
  induction first generalizing second with
  | nil =>
      rw [List.map_nil, eq_comm, List.map_eq_nil_iff] at same
      rw [same]
  | cons a first inductionHypothesis =>
      obtain ⟨b, second', rfl, sameHead, sameRest⟩ := List.map_eq_cons_iff.mp same.symm
      rw [List.map_cons, List.map_cons,
        determined a List.mem_cons_self b List.mem_cons_self sameHead.symm,
        inductionHypothesis sameRest.symm fun a' isA b' isB =>
          determined a' (List.mem_cons_of_mem _ isA) b' (List.mem_cons_of_mem _ isB)]

namespace Text

/-- A text trimmed at its start is empty or starts with a character that is no blank. -/
theorem trimStart_eq_nil_or_cons
    (text : List Char) :
    trimStart text = [] ∨ ∃ c rest, trimStart text = c :: rest ∧ isBlank c = false := by
  cases shape : trimStart text with
  | nil => exact Or.inl rfl
  | cons c rest =>
      refine Or.inr ⟨c, rest, rfl, ?_⟩
      have starts := List.head?_dropWhile_not isBlank text
      rw [show text.dropWhile isBlank = c :: rest from shape] at starts
      exact starts

/-- A trimmed text has nothing more to trim at its start. -/
theorem trimStart_trim
    (text : List Char) :
    trimStart (trim text) = trim text := by
  unfold trim
  rcases trimStart_eq_nil_or_cons text with empty | ⟨c, rest, shape, solid⟩
  · rw [empty]
    rfl
  · have solidHead : Solid [c] := by simpa [Solid] using solid
    rw [shape, ← List.singleton_append, trimEnd_append solidHead,
      trimStart_append solidHead (List.cons_ne_nil _ _)]

/-- A text trimmed at its start, with its first word in lower case. -/
def foldHead
    (text : List Char) :
    List Char :=
  foldCase (headWord (trimStart text)) ++ afterHeadWord (trimStart text)

/-- A text with its first word in lower case is trimmed at its start. -/
theorem trimStart_foldHead
    (text : List Char) :
    trimStart (foldHead text) = foldHead text := by
  unfold foldHead
  rcases trimStart_eq_nil_or_cons text with empty | ⟨c, rest, shape, solid⟩
  · rw [empty]
    rfl
  · apply trimStart_append (solid_foldCase (solid_headWord _))
    simp [shape, headWord, solid, foldCase]

/-- The first word in lower case is the first word of the text so written. -/
theorem headWord_foldHead
    (text : List Char) :
    headWord (trimStart (foldHead text)) = foldCase (headWord (trimStart text)) := by
  rw [trimStart_foldHead]
  exact headWord_append (solid_foldCase (solid_headWord _)) (detached_afterHeadWord _)

/-- What follows the first word stays as it is when that word is written in lower case. -/
theorem afterHeadWord_foldHead
    (text : List Char) :
    afterHeadWord (trimStart (foldHead text)) = afterHeadWord (trimStart text) := by
  rw [trimStart_foldHead]
  exact afterHeadWord_append (solid_foldCase (solid_headWord _)) (detached_afterHeadWord _)

/-- A character of a text starts before the last byte of the text. -/
theorem byteWidth_take_lt
    {text : List Char}
    {index : Nat}
    (inText : index < text.length) :
    byteWidth (text.take index) < byteWidth text := by
  have width := congrArg byteWidth (List.take_append_drop index text)
  have positive : 0 < byteWidth (text.drop index) := byteWidth_pos (by simp [inText])
  rw [byteWidth_append] at width
  omega

end Text

/-! ## Dividing without regard to case -/

/-- A division of a text in lower case. -/
def Division.foldCase
    (division : Division) :
    Division where
  prose := Text.foldCase division.prose
  parts := division.parts.map Text.foldCase

namespace Segment

/-- A segment in lower case. -/
def foldCase
    (segment : Segment) :
    Segment :=
  { segment with text := Text.foldCase segment.text }

/-- A segment with its first word in lower case. -/
def foldHead
    (segment : Segment) :
    Segment :=
  { segment with text := Text.foldHead segment.text }

/-- The bytes of its comment over which a segment ranges, the end excluded. -/
def range
    (segment : Segment) :
    Nat × Nat :=
  (segment.start, segment.stop)

@[simp] theorem range_foldCase
    (segment : Segment) :
    segment.foldCase.range = segment.range := by
  simp [foldCase, range, stop]

/-- Parts in lower case lie at the same bytes as the parts themselves. -/
theorem ofParts_foldCase
    (offset : Nat)
    (parts : List (List Char)) :
    ofParts offset (parts.map Text.foldCase) = (ofParts offset parts).map foldCase := by
  induction parts generalizing offset with
  | nil => rfl
  | cons part parts inductionHypothesis =>
      simp only [List.map_cons, ofParts, ofPart, foldCase, trim_foldCase,
        takeWhile_isBlank_foldCase, byteWidth_foldCase, inductionHypothesis]

end Segment

namespace KeywordTable

variable (table : KeywordTable)

/-- The table does not tell letter cases of a buffer apart. -/
theorem extent_foldCase
    (buffer : List Char) :
    table.extent (foldCase buffer) = table.extent buffer := by
  simp [extent]

/-- A text in lower case is divided at the same places, whatever the buffer. -/
theorem divideFrom_foldCase
    (buffer text : List Char) :
    table.divideFrom (foldCase buffer) (foldCase text) =
      (table.divideFrom buffer text).foldCase := by
  induction text generalizing buffer with
  | nil => rfl
  | cons c rest inductionHypothesis =>
      have sameBuffer : foldCase buffer ++ [c.toLower] = foldCase (buffer ++ [c]) := by
        simp [foldCase]
      have afresh := inductionHypothesis []
      rw [foldCase_nil] at afresh
      rw [show foldCase (c :: rest) = c.toLower :: foldCase rest from rfl, divideFrom, divideFrom,
        sameBuffer, extent_foldCase]
      cases table.extent (buffer ++ [c]) with
      | apart => simp only [afresh, Division.prepend, Division.foldCase, foldCase_append]
      | begun => exact inductionHypothesis (buffer ++ [c])
      | whole =>
          simp only [afresh, Division.openPart, Division.foldCase, foldCase_append, foldCase_nil,
            List.map_cons]

/-- A text in lower case has the same segments, in lower case. -/
theorem segments_foldCase
    (text : List Char) :
    table.segments (foldCase text) = (table.segments text).map Segment.foldCase := by
  have divides : table.divide (foldCase text) = (table.divide text).foldCase :=
    table.divideFrom_foldCase [] text
  simp only [segments, divides, Division.foldCase, byteWidth_foldCase, Segment.ofParts_foldCase]

/-! ## Respelled texts -/

/-- Whether a byte of a text lies in the first word of a segment. -/
def InHead
    (text : List Char)
    (byte : Nat) :
    Prop :=
  ∃ segment ∈ table.segments text,
    segment.start ≤ byte ∧ byte < segment.start + byteWidth (headWord segment.text)

instance decidableInHead
    (text : List Char)
    (byte : Nat) :
    Decidable (table.InHead text byte) :=
  inferInstanceAs (Decidable (∃ segment ∈ table.segments text, _))

/-- A segment is trimmed at its start. -/
theorem trimStart_of_mem_segments
    {table : KeywordTable}
    {text : List Char}
    {segment : Segment}
    (isSegment : segment ∈ table.segments text) :
    trimStart segment.text = segment.text := by
  obtain ⟨part, _, shape⟩ := exists_part_of_mem_segments isSegment
  rw [← shape, trimStart_trim]

/-- Behind its first word, a segment lies in no first word of a segment. -/
theorem not_inHead_of_behind
    {table : KeywordTable}
    {text : List Char}
    {segment : Segment}
    (isSegment : segment ∈ table.segments text)
    {byte : Nat}
    (behind : segment.start + byteWidth (headWord segment.text) ≤ byte)
    (inside : byte < segment.stop) :
    ¬ table.InHead text byte := by
  rintro ⟨other, isOther, notBefore, inHead⟩
  have headInside : byteWidth (headWord other.text) ≤ byteWidth other.text := by
    have width := congrArg byteWidth (headWord_append_afterHeadWord other.text)
    rw [byteWidth_append] at width
    omega
  rcases apart_of_mem_segments isSegment isOther with rfl | earlier | later
  · omega
  · omega
  · unfold Segment.stop at later
    omega

/-- What follows the first word of a segment stands in the text, and no character of it in a first
word. -/
theorem exists_behind_headWord
    {table : KeywordTable}
    {text : List Char}
    {segment : Segment}
    (isSegment : segment ∈ table.segments text) :
    ∃ front after,
      text = front ++ (afterHeadWord segment.text ++ after) ∧
        byteWidth front = segment.start + byteWidth (headWord segment.text) ∧
        ∀ index < (afterHeadWord segment.text).length,
          ¬ table.InHead text (byteWidth (text.take (front.length + index))) := by
  obtain ⟨before, after, shape, atStart⟩ := place_of_mem_segments isSegment
  rw [← headWord_append_afterHeadWord segment.text, List.append_assoc, ← List.append_assoc]
    at shape
  have frontWidth :
      byteWidth (before ++ headWord segment.text) =
        segment.start + byteWidth (headWord segment.text) := by
    rw [byteWidth_append, atStart]
  refine ⟨before ++ headWord segment.text, after, shape, frontWidth, ?_⟩
  intro index inTail
  have takenWidth :
      byteWidth (text.take ((before ++ headWord segment.text).length + index)) =
        segment.start + byteWidth (headWord segment.text) +
          byteWidth ((afterHeadWord segment.text).take index) := by
    rw [shape, List.take_length_add_append, List.take_append_of_le_length (Nat.le_of_lt inTail),
      byteWidth_append, frontWidth]
  rw [takenWidth]
  apply not_inHead_of_behind isSegment (Nat.le_add_right _ _)
  have width := congrArg byteWidth (headWord_append_afterHeadWord segment.text)
  have shorter := byteWidth_take_lt inTail
  rw [byteWidth_append] at width
  unfold Segment.stop
  omega

/-- The texts differ at most in the case of letters in the first words of segments. -/
structure Respells
    (text text' : List Char) :
    Prop where
  sameLetters : foldCase text = foldCase text'
  inHeads : ∀ position,
    text[position]? ≠ text'[position]? → table.InHead text (byteWidth (text.take position))

instance decidableRespells
    (text text' : List Char) :
    Decidable (table.Respells text text') :=
  decidable_of_iff
    (foldCase text = foldCase text' ∧
      ∀ position < text.length,
        text[position]? ≠ text'[position]? → table.InHead text (byteWidth (text.take position)))
    ⟨fun ⟨sameLetters, inHeads⟩ => {
        sameLetters := sameLetters
        inHeads := by
          intro position different
          apply inHeads position _ different
          by_contra outside
          have sameLength := congrArg List.length sameLetters
          rw [length_foldCase, length_foldCase] at sameLength
          rw [List.getElem?_eq_none (by omega), List.getElem?_eq_none (by omega)] at different
          exact different rfl },
      fun respells => ⟨respells.sameLetters, fun position _ => respells.inHeads position⟩⟩

namespace Respells

variable {table} {text text' : List Char}

/-- Respelled texts have the same segments up to letter case. -/
theorem sameSegments
    (respells : table.Respells text text') :
    (table.segments text).map Segment.foldCase = (table.segments text').map Segment.foldCase := by
  rw [← segments_foldCase, ← segments_foldCase, respells.sameLetters]

/-- A respelled text has its segments at the same bytes. -/
theorem sameRanges
    (respells : table.Respells text text') :
    (table.segments text).map Segment.range = (table.segments text').map Segment.range := by
  have same := congrArg (List.map Segment.range) respells.sameSegments
  simpa only [List.map_map, Function.comp_def, Segment.range_foldCase] using same

/-- Behind their first words, segments at one place of the two texts are the same. -/
theorem afterHeadWord_eq
    (respells : table.Respells text text')
    {segment segment' : Segment}
    (isSegment : segment ∈ table.segments text)
    (isSegment' : segment' ∈ table.segments text')
    (same : segment.foldCase = segment'.foldCase) :
    afterHeadWord segment.text = afterHeadWord segment'.text := by
  obtain ⟨sameText, sameStart⟩ := Segment.mk.inj same
  obtain ⟨front, after, shape, width, notInHead⟩ := exists_behind_headWord isSegment
  obtain ⟨front', after', shape', width', _⟩ := exists_behind_headWord isSegment'
  have sameHeads : foldCase (headWord segment.text) = foldCase (headWord segment'.text) := by
    rw [← headWord_foldCase, ← headWord_foldCase, sameText]
  have sameTails :
      foldCase (afterHeadWord segment.text) = foldCase (afterHeadWord segment'.text) := by
    rw [← afterHeadWord_foldCase, ← afterHeadWord_foldCase, sameText]
  have sameLength : (afterHeadWord segment.text).length = (afterHeadWord segment'.text).length := by
    simpa using congrArg List.length sameTails
  have headWidth := congrArg byteWidth sameHeads
  rw [byteWidth_foldCase, byteWidth_foldCase] at headWidth
  -- The tails stand at one position of the two texts.
  have samePosition : front.length = front'.length := by
    have sameLetters := respells.sameLetters
    rw [shape, shape', foldCase_append, foldCase_append front'] at sameLetters
    have sameWidth : byteWidth (foldCase front) = byteWidth (foldCase front') := by
      rw [byteWidth_foldCase, byteWidth_foldCase, width, width', headWidth]
      exact congrArg (· + _) sameStart
    have sameFolded := (append_inj_of_byteWidth sameLetters sameWidth).1
    simpa only [length_foldCase] using congrArg List.length sameFolded
  apply List.ext_getElem?
  intro index
  by_contra different
  have inTail : index < (afterHeadWord segment.text).length := by
    by_contra outside
    rw [List.getElem?_eq_none (by omega), List.getElem?_eq_none (by omega)] at different
    exact different rfl
  have atPosition : ∀ {front tail rest : List Char}, index < tail.length →
      (front ++ (tail ++ rest))[front.length + index]? = tail[index]? := by
    intro front tail rest inside
    rw [List.getElem?_append_right (Nat.le_add_right _ _), Nat.add_sub_cancel_left,
      List.getElem?_append_left inside]
  apply notInHead index inTail
  apply respells.inHeads
  rw [shape, atPosition inTail, samePosition, shape', atPosition (sameLength ▸ inTail)]
  exact different

/-- The segments of a respelled text are the same but for the case of their first words. -/
theorem sameButHeads
    (respells : table.Respells text text') :
    (table.segments text).map Segment.foldHead = (table.segments text').map Segment.foldHead := by
  apply map_eq_map_of_pointwise respells.sameSegments
  intro segment isSegment segment' isSegment' same
  obtain ⟨sameText, sameStart⟩ := Segment.mk.inj same
  have sameHeads : foldCase (headWord segment.text) = foldCase (headWord segment'.text) := by
    rw [← headWord_foldCase, ← headWord_foldCase, sameText]
  simp only [Segment.foldHead, foldHead, trimStart_of_mem_segments isSegment,
    trimStart_of_mem_segments isSegment', sameHeads, sameStart,
    respells.afterHeadWord_eq isSegment isSegment' same]

end Respells

end KeywordTable

end Flowmark
