import Flowmark.Text.Identifier.Ranges

namespace Flowmark.Text

/-! # Identifiers

An identifier opens with a character of `XID_Start` or a low line and goes on with characters of
`XID_Continue`.
-/

/-- A character may open an identifier when it is in `XID_Start`. -/
def isIdentifierStart
    (c : Char) :
    Bool :=
  inRanges identifierStartRanges c

/-- A character may continue an identifier when it is in `XID_Continue`. -/
def isIdentifierContinue
    (c : Char) :
    Bool :=
  inRanges identifierStartRanges c || inRanges identifierExtendRanges c

/-- A text is an identifier when its first character may open one and the others may continue it. -/
def isIdentifier : List Char → Bool
  | [] => false
  | first :: rest =>
      (first == '_' || isIdentifierStart first) && rest.all isIdentifierContinue

/-- Whatever may open an identifier may also continue one. -/
theorem isIdentifierContinue_of_isIdentifierStart
    {c : Char}
    (start : isIdentifierStart c = true) :
    isIdentifierContinue c = true := by
  unfold isIdentifierStart at start
  simp [isIdentifierContinue, start]

/-- Every letter of ASCII may open an identifier. -/
theorem isIdentifierStart_of_isAlpha
    {c : Char}
    (letter : c.isAlpha = true) :
    isIdentifierStart c = true := by
  unfold isIdentifierStart
  rw [inRanges_eq_true_iff]
  rcases (Bool.or_eq_true _ _).mp letter with upper | lower
  · refine ⟨(0x41, 0x5a), List.mem_cons_self, ?_⟩
    have bounds : c.val ≥ 'A'.val ∧ c.val ≤ 'Z'.val := of_decide_eq_true upper
    simpa [UInt32.le_iff_toNat_le] using bounds
  · refine ⟨(0x61, 0x7a), List.mem_cons_of_mem _ List.mem_cons_self, ?_⟩
    have bounds : (decide (c.val ≥ 'a'.val) && decide (c.val ≤ 'z'.val)) = true := lower
    simpa [UInt32.le_iff_toNat_le] using bounds

/-- Every letter and every digit of ASCII may continue an identifier. -/
theorem isIdentifierContinue_of_isAlphanum
    {c : Char}
    (plain : c.isAlphanum = true) :
    isIdentifierContinue c = true := by
  rcases (Bool.or_eq_true _ _).mp plain with letter | digit
  · exact isIdentifierContinue_of_isIdentifierStart (isIdentifierStart_of_isAlpha letter)
  · have inTable : inRanges identifierExtendRanges c = true := by
      rw [inRanges_eq_true_iff]
      refine ⟨(0x30, 0x39), List.mem_cons_self, ?_⟩
      simpa [Char.isDigit, UInt32.le_iff_toNat_le] using digit
    simp [isIdentifierContinue, inTable]

end Flowmark.Text
