import Flowmark.Proofs.Text.Words

namespace Flowmark.Text

/-!
# Letter case and the shape of a text

Writing letters in lower case moves no character: the blanks, the words and the bytes of a text stay
where they are.
-/

/-- A letter takes as many bytes in lower case as in upper case. -/
theorem utf8Size_toLower
    (c : Char) :
    c.toLower.utf8Size = c.utf8Size := by
  by_cases upper : 65 ≤ c.toNat ∧ c.toNat ≤ 90
  · have shifted := toNat_toLower_of_upper upper
    have oneByte : ∀ {letter : Char}, letter.toNat ≤ 127 → letter.utf8Size = 1 := by
      intro letter small
      exact Char.utf8Size_eq_one_iff.mpr (UInt32.le_iff_toNat_le.mpr small)
    rw [oneByte (by omega), oneByte (by omega)]
  · rw [toLower_of_not_upper upper]

/-- A text takes as many bytes in lower case. -/
@[simp] theorem byteWidth_foldCase
    (text : List Char) :
    byteWidth (foldCase text) = byteWidth text := by
  induction text with
  | nil => rfl
  | cons c rest inductionHypothesis =>
      rw [foldCase, List.map_cons, byteWidth, byteWidth, utf8Size_toLower]
      exact congrArg (c.utf8Size + ·) inductionHypothesis

/-- A text in lower case starts with the same blanks. -/
theorem takeWhile_isBlank_foldCase
    (text : List Char) :
    (foldCase text).takeWhile isBlank = foldCase (text.takeWhile isBlank) := by
  simp only [foldCase, List.takeWhile_map, Function.comp_def, isBlank_toLower]

/-- The first word of a text in lower case is the first word in lower case. -/
theorem headWord_foldCase
    (text : List Char) :
    headWord (foldCase text) = foldCase (headWord text) := by
  simp only [headWord, foldCase, List.takeWhile_map, Function.comp_def, isBlank_toLower]

/-- What follows the first word of a text in lower case is what follows it, in lower case. -/
theorem afterHeadWord_foldCase
    (text : List Char) :
    afterHeadWord (foldCase text) = foldCase (afterHeadWord text) := by
  simp only [afterHeadWord, foldCase, List.dropWhile_map, Function.comp_def, isBlank_toLower]

/-- Trimming and writing in lower case may change their order. -/
theorem trim_foldCase
    (text : List Char) :
    trim (foldCase text) = foldCase (trim text) := by
  simp only [trim, trimStart, trimEnd, foldCase, List.dropWhile_map, ← List.map_reverse,
    Function.comp_def, isBlank_toLower]

/-- A text without blanks has none in lower case either. -/
theorem solid_foldCase
    {text : List Char}
    (solid : Solid text) :
    Solid (foldCase text) := by
  intro c member
  obtain ⟨original, inText, rfl⟩ := List.mem_map.mp member
  rw [isBlank_toLower, solid original inText]

end Flowmark.Text
