namespace Flowmark

/-! # Order keys

Records that are ordered by several numbers in turn have the list of these numbers as their key.
Keys are compared number by number, the first difference deciding.
-/

/-- The numbers by which a record is ordered, the most important first. -/
abbrev OrderKey :=
  List Nat

namespace OrderKey

/-- Whether a key does not come after another. -/
def le : OrderKey → OrderKey → Bool
  | [], _ => true
  | _ :: _, [] => false
  | first :: rest, first' :: rest' => first < first' || (first == first' && le rest rest')

theorem le_refl
    (key : OrderKey) :
    le key key = true := by
  induction key with
  | nil => rfl
  | cons first rest inductionHypothesis => simp [le, inductionHypothesis]

theorem le_trans
    {first second third : OrderKey}
    (before : le first second = true)
    (after : le second third = true) :
    le first third = true := by
  induction first generalizing second third with
  | nil => rfl
  | cons a rest inductionHypothesis =>
      cases second with
      | nil => simp [le] at before
      | cons b rest' =>
          cases third with
          | nil => simp [le] at after
          | cons c rest'' =>
              simp only [le, Bool.or_eq_true, decide_eq_true_eq, Bool.and_eq_true,
                beq_iff_eq] at before after ⊢
              rcases before with smaller | ⟨rfl, before⟩
              · rcases after with smaller' | ⟨rfl, _⟩
                · exact Or.inl (Nat.lt_trans smaller smaller')
                · exact Or.inl smaller
              · rcases after with smaller' | ⟨rfl, after⟩
                · exact Or.inl smaller'
                · exact Or.inr ⟨rfl, inductionHypothesis before after⟩

theorem le_total
    (first second : OrderKey) :
    le first second = true ∨ le second first = true := by
  induction first generalizing second with
  | nil => exact Or.inl rfl
  | cons a rest inductionHypothesis =>
      cases second with
      | nil => exact Or.inr rfl
      | cons b rest' =>
          simp only [le, Bool.or_eq_true, decide_eq_true_eq, Bool.and_eq_true, beq_iff_eq]
          rcases Nat.lt_trichotomy a b with smaller | rfl | larger
          · exact Or.inl (Or.inl smaller)
          · rcases inductionHypothesis rest' with before | after
            · exact Or.inl (Or.inr ⟨rfl, before⟩)
            · exact Or.inr (Or.inr ⟨rfl, after⟩)
          · exact Or.inr (Or.inl larger)

theorem le_antisymm
    {first second : OrderKey}
    (before : le first second = true)
    (after : le second first = true) :
    first = second := by
  induction first generalizing second with
  | nil =>
      cases second with
      | nil => rfl
      | cons b rest' => simp [le] at after
  | cons a rest inductionHypothesis =>
      cases second with
      | nil => simp [le] at before
      | cons b rest' =>
          simp only [le, Bool.or_eq_true, decide_eq_true_eq, Bool.and_eq_true,
            beq_iff_eq] at before after
          rcases before with smaller | ⟨rfl, before⟩
          · rcases after with larger | ⟨rfl, _⟩
            · exact absurd smaller (Nat.lt_asymm larger)
            · exact absurd smaller (Nat.lt_irrefl _)
          · rcases after with larger | ⟨_, after⟩
            · exact absurd larger (Nat.lt_irrefl _)
            · rw [inductionHypothesis before after]

/-- Records in the order of their keys; records with one key keep their order. -/
def sortBy
    (key : α → OrderKey)
    (records : List α) :
    List α :=
  records.mergeSort fun left right => le (key left) (key right)

/-- Sorting loses no record and adds none. -/
theorem sortBy_perm
    (key : α → OrderKey)
    (records : List α) :
    (sortBy key records).Perm records :=
  List.mergeSort_perm records _

/-- Sorted records have ascending keys. -/
theorem pairwise_sortBy
    (key : α → OrderKey)
    (records : List α) :
    (sortBy key records).Pairwise fun left right => le (key left) (key right) = true := by
  apply List.pairwise_mergeSort
  · intro first second third before after
    exact le_trans before after
  · intro first second
    simpa only [Bool.or_eq_true] using le_total (key first) (key second)

end OrderKey

end Flowmark
