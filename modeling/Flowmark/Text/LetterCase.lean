namespace Flowmark.Text

/-! # Letter case

Keywords are compared without regard to the case of the letters `A` to `Z`.  All other characters
stand for themselves.
-/

/-- Write the letters `A` to `Z` of a text in lower case and keep every other character. -/
def foldCase
    (cs : List Char) :
    List Char :=
  cs.map Char.toLower

/-- The letters `A` to `Z` are 32 places before theirs in lower case. -/
theorem toNat_toLower_of_upper
    {c : Char}
    (upper : 65 ≤ c.toNat ∧ c.toNat ≤ 90) :
    c.toLower.toNat = c.toNat + 32 := by
  have isUpper : c.val ≥ 'A'.val ∧ c.val ≤ 'Z'.val :=
    ⟨UInt32.le_iff_toNat_le.mpr upper.1, UInt32.le_iff_toNat_le.mpr upper.2⟩
  have shifted : c.toLower.val = c.val + ('a'.val - 'A'.val) :=
    congrArg Char.val (dif_pos isUpper)
  have distance : ('a'.val - 'A'.val).toNat = 32 := by decide
  have inRange : c.val.toNat + 32 < 2 ^ 32 :=
    Nat.lt_of_le_of_lt (Nat.add_le_add_right upper.2 32) (by decide)
  calc
    c.toLower.toNat = (c.val + ('a'.val - 'A'.val)).toNat := congrArg UInt32.toNat shifted
    _ = c.val.toNat + 32 := by rw [UInt32.toNat_add, distance, Nat.mod_eq_of_lt inRange]

/-- Only the letters from `A` to `Z` change in lower case. -/
theorem toLower_of_not_upper
    {c : Char}
    (other : ¬ (65 ≤ c.toNat ∧ c.toNat ≤ 90)) :
    c.toLower = c := by
  have notUpper : ¬ (c.val ≥ 'A'.val ∧ c.val ≤ 'Z'.val) := fun ⟨lower, upper⟩ =>
    other ⟨UInt32.le_iff_toNat_le.mp lower, UInt32.le_iff_toNat_le.mp upper⟩
  exact dif_neg notUpper

/-- A character in lower case stays as it is. -/
theorem toLower_toLower
    (c : Char) :
    c.toLower.toLower = c.toLower := by
  by_cases upper : 65 ≤ c.toNat ∧ c.toNat ≤ 90
  · apply toLower_of_not_upper
    rw [toNat_toLower_of_upper upper]
    omega
  · rw [toLower_of_not_upper upper, toLower_of_not_upper upper]

@[simp] theorem foldCase_nil :
    foldCase [] = [] :=
  rfl

@[simp] theorem foldCase_append
    (left right : List Char) :
    foldCase (left ++ right) = foldCase left ++ foldCase right :=
  List.map_append

@[simp] theorem length_foldCase
    (cs : List Char) :
    (foldCase cs).length = cs.length :=
  List.length_map _

/-- Folding a folded text changes nothing. -/
@[simp] theorem foldCase_foldCase
    (cs : List Char) :
    foldCase (foldCase cs) = foldCase cs := by
  unfold foldCase
  rw [List.map_map]
  exact List.map_congr_left fun c _ => toLower_toLower c

end Flowmark.Text
