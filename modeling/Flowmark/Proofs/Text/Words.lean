import Flowmark.Text.Blank
import Flowmark.Text.LetterCase
import Mathlib.Data.List.Induction
import Mathlib.Data.List.TakeWhile

namespace Flowmark.Text

/-!
# Words and the blanks around them

A word is a run without blanks.  The lemmas here cut a text after its first word, and take the
blanks off its ends, where the text is given in pieces.
-/

/-- A text that does not continue a word: it is empty or starts with a blank. -/
def Detached
    (cs : List Char) :
    Prop :=
  ∀ c ∈ cs.head?, isBlank c = true

/-- A text without blanks. -/
def Solid
    (cs : List Char) :
    Prop :=
  ∀ c ∈ cs, isBlank c = false

theorem detached_nil :
    Detached [] := by
  simp [Detached]

/-- A text that starts with a blank is detached. -/
theorem detached_cons
    {c : Char}
    (blank : isBlank c = true)
    (rest : List Char) :
    Detached (c :: rest) := by
  simpa [Detached] using blank

/-- A blank is none of the characters that are not blank. -/
theorem ne_of_isBlank
    {c other : Char}
    (blank : isBlank c = true)
    (solid : isBlank other = false) :
    c ≠ other := by
  rintro rfl
  rw [solid] at blank
  exact Bool.noConfusion blank

/-- No blank is a digit. -/
theorem isDigit_of_isBlank
    {c : Char}
    (blank : isBlank c = true) :
    c.isDigit = false := by
  obtain ⟨range, member, lower, upper⟩ := inRanges_eq_true_iff.mp blank
  have value : c.toNat < 48 ∨ 57 < c.toNat := by
    simp only [blankRanges, List.mem_cons, List.not_mem_nil, or_false] at member
    rcases member with rfl | rfl | rfl | rfl | rfl | rfl | rfl | rfl | rfl | rfl <;>
      simp only at lower upper <;> omega
  simp only [Char.isDigit, ge_iff_le, UInt32.le_iff_toNat_le, Bool.and_eq_false_iff,
    decide_eq_false_iff_not, Nat.not_le]
  exact value

/-- A letter is no blank in either case, and any other character is the same in lower case. -/
@[simp] theorem isBlank_toLower
    (c : Char) :
    isBlank c.toLower = isBlank c := by
  by_cases upper : 65 ≤ c.toNat ∧ c.toNat ≤ 90
  · -- A letter lies from 65 to 90, or in lower case from 97 to 122, where no blank is.
    have noBlank : ∀ letter : Char, 65 ≤ letter.toNat → letter.toNat ≤ 122 →
        isBlank letter = false := by
      intro letter low high
      rw [Bool.eq_false_iff]
      intro blank
      obtain ⟨range, member, least, greatest⟩ := inRanges_eq_true_iff.mp blank
      simp only [blankRanges, List.mem_cons, List.not_mem_nil, or_false] at member
      rcases member with rfl | rfl | rfl | rfl | rfl | rfl | rfl | rfl | rfl | rfl <;>
        simp only at least greatest <;> omega
    have shifted := toNat_toLower_of_upper upper
    rw [noBlank c upper.1 (by omega), noBlank c.toLower (by omega) (by omega)]
  · rw [toLower_of_not_upper upper]

/-- A text without blanks has none in lower case either. -/
theorem solid_foldCase_iff
    {cs : List Char} :
    Solid (foldCase cs) ↔ Solid cs := by
  simp [Solid, foldCase]

/-! ## The first word -/

/-- The first word of a text that starts with a word and then detaches is that word. -/
theorem headWord_append
    {word : List Char}
    (solid : Solid word)
    {rest : List Char}
    (detached : Detached rest) :
    headWord (word ++ rest) = word := by
  have restStops : rest.takeWhile (!isBlank ·) = [] := by
    cases rest with
    | nil => rfl
    | cons c rest => simp [detached c (by simp)]
  unfold headWord
  rw [List.takeWhile_append_of_pos (by simpa [Solid] using solid), restStops, List.append_nil]

/-- Behind a word without blanks stands the detached text that follows it. -/
theorem afterHeadWord_append
    {word : List Char}
    (solid : Solid word)
    {rest : List Char}
    (detached : Detached rest) :
    afterHeadWord (word ++ rest) = rest := by
  have restStays : rest.dropWhile (!isBlank ·) = rest := by
    cases rest with
    | nil => rfl
    | cons c rest => simp [detached c (by simp)]
  unfold afterHeadWord
  rw [List.dropWhile_append_of_pos (by simpa [Solid] using solid), restStays]

/-- The first word of a text has no blank. -/
theorem solid_headWord
    (cs : List Char) :
    Solid (headWord cs) := by
  intro c member
  simpa using List.mem_takeWhile_imp member

/-- A word at the start of a text is part of its first word. -/
theorem isPrefix_headWord
    {word cs : List Char}
    (solid : Solid word)
    (isPrefix : word <+: cs) :
    word <+: headWord cs := by
  obtain ⟨rest, rfl⟩ := isPrefix
  unfold headWord
  rw [List.takeWhile_append_of_pos (by simpa [Solid] using solid)]
  exact List.prefix_append _ _

/-- What follows the first word is detached from it. -/
theorem detached_afterHeadWord
    (cs : List Char) :
    Detached (afterHeadWord cs) := by
  intro c member
  have stops := List.head?_dropWhile_not (!isBlank ·) cs
  rw [show cs.dropWhile (!isBlank ·) = afterHeadWord cs from rfl, Option.mem_def.mp member] at stops
  simpa using stops

/-! ## Trimmed ends -/

/-- A text that starts with a word has nothing to trim at its start. -/
theorem trimStart_append
    {before : List Char}
    (solid : Solid before)
    (nonempty : before ≠ [])
    (rest : List Char) :
    trimStart (before ++ rest) = before ++ rest := by
  cases before with
  | nil => exact absurd rfl nonempty
  | cons c before => simp [trimStart, solid c (by simp)]

/-- A blank at the end is trimmed. -/
theorem trimEnd_append_blank
    {c : Char}
    (blank : isBlank c = true)
    (cs : List Char) :
    trimEnd (cs ++ [c]) = trimEnd cs := by
  simp [trimEnd, blank]

/-- A text that ends with a character other than a blank has nothing to trim at its end. -/
theorem trimEnd_append_solid
    {c : Char}
    (solid : isBlank c = false)
    (cs : List Char) :
    trimEnd (cs ++ [c]) = cs ++ [c] := by
  simp [trimEnd, solid]

/-- A text that ends with a character other than a blank. -/
def EndsSolid
    (cs : List Char) :
    Prop :=
  ∃ before c, cs = before ++ [c] ∧ isBlank c = false

/-- A text that starts with a character other than a blank. -/
def StartsSolid
    (cs : List Char) :
    Prop :=
  ∃ c rest, cs = c :: rest ∧ isBlank c = false

/-- What stands in front does not change how a text ends. -/
theorem EndsSolid.append
    {cs : List Char}
    (ends : EndsSolid cs)
    (front : List Char) :
    EndsSolid (front ++ cs) := by
  obtain ⟨before, c, rfl, solid⟩ := ends
  exact ⟨front ++ before, c, by simp, solid⟩

/-- A text that does not end with a blank has nothing to trim at its end. -/
theorem EndsSolid.trimEnd_eq
    {cs : List Char}
    (ends : EndsSolid cs) :
    trimEnd cs = cs := by
  obtain ⟨before, c, rfl, solid⟩ := ends
  exact trimEnd_append_solid solid before

/-- A word does not start with a blank. -/
theorem startsSolid_of_solid
    {cs : List Char}
    (solid : Solid cs)
    (nonempty : cs ≠ []) :
    StartsSolid cs := by
  obtain ⟨c, rest, rfl⟩ := List.exists_cons_of_ne_nil nonempty
  exact ⟨c, rest, rfl, solid c (by simp)⟩

/-- A word does not end with a blank. -/
theorem endsSolid_of_solid
    {cs : List Char}
    (solid : Solid cs)
    (nonempty : cs ≠ []) :
    EndsSolid cs := by
  obtain ⟨before, c, rfl⟩ := (List.eq_nil_or_concat cs).resolve_left nonempty
  rw [List.concat_eq_append] at solid ⊢
  exact ⟨before, c, rfl, solid c (by simp)⟩

/-- A text without blanks has nothing to trim at its end. -/
theorem trimEnd_solid
    {cs : List Char}
    (solid : Solid cs) :
    trimEnd cs = cs := by
  by_cases empty : cs = []
  · rw [empty]
    rfl
  · exact (endsSolid_of_solid solid empty).trimEnd_eq

/-- Behind a word only the end of the rest is trimmed. -/
theorem trimEnd_append
    {before : List Char}
    (solid : Solid before)
    (rest : List Char) :
    trimEnd (before ++ rest) = before ++ trimEnd rest := by
  induction rest using List.reverseRecOn with
  | nil =>
      rw [List.append_nil, trimEnd_solid solid]
      simp [trimEnd]
  | append_singleton rest c inductionHypothesis =>
      rw [← List.append_assoc]
      cases kind : isBlank c with
      | true => rw [trimEnd_append_blank kind, trimEnd_append_blank kind, inductionHypothesis]
      | false =>
          rw [trimEnd_append_solid kind, trimEnd_append_solid kind, List.append_assoc]

/-- Only blanks are trimmed off the end of a text. -/
theorem exists_append_trimEnd
    (cs : List Char) :
    ∃ gap, cs = trimEnd cs ++ gap ∧ ∀ c ∈ gap, isBlank c = true := by
  refine ⟨(cs.reverse.takeWhile isBlank).reverse, ?_, ?_⟩
  · rw [trimEnd, ← List.reverse_append, List.takeWhile_append_dropWhile, List.reverse_reverse]
  · intro c member
    exact List.mem_takeWhile_imp (List.mem_reverse.mp member)

/-- Trimming at the end leaves the front of a text. -/
theorem trimEnd_isPrefix
    (cs : List Char) :
    trimEnd cs <+: cs := by
  obtain ⟨gap, shape, _⟩ := exists_append_trimEnd cs
  exact ⟨gap, shape.symm⟩

/-- What is left of trimming at the end does not end with a blank. -/
theorem endsSolid_trimEnd
    {cs : List Char}
    (nonempty : trimEnd cs ≠ []) :
    EndsSolid (trimEnd cs) := by
  induction cs using List.reverseRecOn with
  | nil => exact absurd rfl nonempty
  | append_singleton before c inductionHypothesis =>
      cases kind : isBlank c with
      | true =>
          rw [trimEnd_append_blank kind] at nonempty ⊢
          exact inductionHypothesis nonempty
      | false =>
          rw [trimEnd_append_solid kind]
          exact ⟨before, c, rfl, kind⟩

/-- The trimmed form of a text that starts with a word starts with that word. -/
theorem trim_append
    {before : List Char}
    (solid : Solid before)
    (nonempty : before ≠ [])
    (rest : List Char) :
    trim (before ++ rest) = before ++ trimEnd rest := by
  rw [trim, trimStart_append solid nonempty, trimEnd_append solid]

end Flowmark.Text
