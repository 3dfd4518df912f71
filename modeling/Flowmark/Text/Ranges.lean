namespace Flowmark.Text

/-! # Ranges of characters

A class of characters given by a table is a list of inclusive ranges of code points.
-/

/-- An inclusive range of code points. -/
abbrev Range :=
  Nat × Nat

/-- A character lies in a table when one of the ranges holds its code point. -/
def inRanges
    (ranges : List Range)
    (c : Char) :
    Bool :=
  ranges.any fun (first, last) => decide (first ≤ c.toNat ∧ c.toNat ≤ last)

/-- Whether the ranges of a table are ascending and apart, none of them being empty. -/
def areAscending : List Range → Bool
  | [] => true
  | [range] => decide (range.1 ≤ range.2)
  | range :: next :: rest =>
      decide (range.1 ≤ range.2) && decide (range.2 + 1 < next.1) && areAscending (next :: rest)

/-- The number of code points in a table whose ranges are apart. -/
def rangeCount : List Range → Nat
  | [] => 0
  | range :: rest => range.2 + 1 - range.1 + rangeCount rest

/-- A character lies in a table when it lies between the ends of one of the ranges. -/
theorem inRanges_eq_true_iff
    {ranges : List Range}
    {c : Char} :
    inRanges ranges c = true ↔
      ∃ range ∈ ranges, range.1 ≤ c.toNat ∧ c.toNat ≤ range.2 := by
  simp [inRanges]

end Flowmark.Text
