import Mathlib.Data.List.Sort
import Flowmark.Comment

namespace Flowmark

/-!
# Comments in order

Sorting is stable: it puts each record in front of the first one that does not come before it.  So
records that come before all others are sorted apart from them, and where no two keys are equal the
order in which records are given does not matter.
-/

namespace OrderKey

/-- Whether a key comes before another one. -/
def Before
    (first second : OrderKey) :
    Prop :=
  le first second = true ∧ first ≠ second

variable {α : Type} (key : α → OrderKey)

/-- Whether a record does not come after another one. -/
abbrev NotAfter
    (left right : α) :
    Prop :=
  le (key left) (key right) = true

/-- Records that a further one does not come after stay behind where it is inserted. -/
theorem orderedInsert_append
    {record : α}
    {left right : List α}
    (comeAfter : ∀ other ∈ right, NotAfter key record other) :
    (left ++ right).orderedInsert (NotAfter key) record =
      left.orderedInsert (NotAfter key) record ++ right := by
  induction left with
  | nil =>
      cases right with
      | nil => rfl
      | cons other right =>
          exact List.orderedInsert_cons_of_le _ _ (comeAfter other List.mem_cons_self)
  | cons other left inductionHypothesis =>
      by_cases notAfter : NotAfter key record other
      · rw [List.cons_append, List.orderedInsert_cons_of_le _ _ notAfter,
          List.orderedInsert_cons_of_le _ _ notAfter]
        rfl
      · rw [List.cons_append, List.orderedInsert_of_not_le _ _ notAfter,
          List.orderedInsert_of_not_le _ _ notAfter, inductionHypothesis, List.cons_append]

/-- A record that comes after all others is inserted at the end. -/
theorem orderedInsert_last
    {record : α}
    {records : List α}
    (comeBefore : ∀ other ∈ records, ¬ NotAfter key record other) :
    records.orderedInsert (NotAfter key) record = records ++ [record] := by
  induction records with
  | nil => rfl
  | cons other records inductionHypothesis =>
      obtain ⟨otherBefore, restBefore⟩ := List.forall_mem_cons.mp comeBefore
      rw [List.orderedInsert_of_not_le _ _ otherBefore, inductionHypothesis restBefore,
        List.cons_append]

/-- Sorting is stable insertion of one record after another. -/
theorem sortBy_eq_insertionSort
    (records : List α) :
    sortBy key records = records.insertionSort (NotAfter key) := by
  have transitive : ∀ a b c : α, le (key a) (key b) = true → le (key b) (key c) = true →
      le (key a) (key c) = true := fun _ _ _ => le_trans
  have total : ∀ a b : α, (le (key a) (key b) || le (key b) (key a)) = true := by
    intro a b
    simpa only [Bool.or_eq_true] using le_total (key a) (key b)
  induction records with
  | nil => exact List.mergeSort_nil
  | cons record records inductionHypothesis =>
      obtain ⟨before, after, shape, others, areBefore⟩ :=
        List.mergeSort_cons transitive total record records
      change sortBy key (record :: records) = before ++ record :: after at shape
      change sortBy key records = before ++ after at others
      have ascending := pairwise_sortBy key (record :: records)
      rw [shape, List.pairwise_append, List.pairwise_cons] at ascending
      have comeBefore : ∀ other ∈ before, ¬ NotAfter key record other := by
        intro other isBefore
        simpa using areBefore other isBefore
      rw [List.insertionSort_cons, ← inductionHypothesis, shape, others,
        orderedInsert_append key ascending.2.1.1, orderedInsert_last key comeBefore]
      simp

variable {key}

/-- Records that are related one by one and have the same keys are sorted alike. -/
theorem forall₂_sortBy
    {related : α → α → Prop}
    (sameKey : ∀ {record other : α}, related record other → key record = key other)
    {first second : List α}
    (areRelated : List.Forall₂ related first second) :
    List.Forall₂ related (sortBy key first) (sortBy key second) := by
  have inserted : ∀ {record other : α} {rest rest' : List α}, related record other →
      List.Forall₂ related rest rest' →
      List.Forall₂ related (rest.orderedInsert (NotAfter key) record)
        (rest'.orderedInsert (NotAfter key) other) := by
    intro record other rest rest' isRelated restRelated
    induction restRelated with
    | nil => exact .cons isRelated .nil
    | @cons next next' rest rest' nextRelated restRelated inductionHypothesis =>
        have sameOrder : NotAfter key record next ↔ NotAfter key other next' := by
          rw [NotAfter, NotAfter, sameKey isRelated, sameKey nextRelated]
        by_cases notAfter : NotAfter key record next
        · rw [List.orderedInsert_cons_of_le _ _ notAfter,
            List.orderedInsert_cons_of_le _ _ (sameOrder.mp notAfter)]
          exact .cons isRelated (.cons nextRelated restRelated)
        · rw [List.orderedInsert_of_not_le _ _ notAfter,
            List.orderedInsert_of_not_le _ _ (mt sameOrder.mpr notAfter)]
          exact .cons nextRelated inductionHypothesis
  simp only [sortBy_eq_insertionSort]
  induction areRelated with
  | nil => exact .nil
  | cons isRelated _ inductionHypothesis => exact inserted isRelated inductionHypothesis

/-- Records that come before all others are sorted apart from them. -/
theorem sortBy_append
    {first second : List α}
    (apart : ∀ record ∈ first, ∀ other ∈ second, NotAfter key record other) :
    sortBy key (first ++ second) = sortBy key first ++ sortBy key second := by
  simp only [sortBy_eq_insertionSort]
  induction first with
  | nil => rfl
  | cons record first inductionHypothesis =>
      obtain ⟨recordApart, restApart⟩ := List.forall_mem_cons.mp apart
      rw [List.cons_append, List.insertionSort_cons, List.insertionSort_cons,
        inductionHypothesis restApart]
      apply orderedInsert_append
      intro other isSorted
      exact recordApart other ((List.mem_insertionSort _).mp isSorted)

/-- Where no two keys are equal, the order in which records are given does not matter. -/
theorem sortBy_eq_of_perm
    {first second : List α}
    (rearranged : first.Perm second)
    (distinct : (first.map key).Nodup) :
    sortBy key first = sortBy key second := by
  have sameRecords : (sortBy key first).Perm (sortBy key second) :=
    (sortBy_perm key first).trans (rearranged.trans (sortBy_perm key second).symm)
  refine List.Perm.eq_of_pairwise ?_ (pairwise_sortBy key first) (pairwise_sortBy key second)
    sameRecords
  intro left right isLeft isRight before after
  have inFirst : left ∈ first := (sortBy_perm key first).subset isLeft
  have alsoInFirst : right ∈ first :=
    rearranged.symm.subset ((sortBy_perm key second).subset isRight)
  exact List.inj_on_of_nodup_map distinct inFirst alsoInFirst (le_antisymm before after)

/-- Where no two keys are equal, sorted records have strictly ascending keys. -/
theorem pairwise_before_sortBy
    {records : List α}
    (distinct : (records.map key).Nodup) :
    (sortBy key records).Pairwise fun left right => Before (key left) (key right) := by
  have sortedDistinct : ((sortBy key records).map key).Nodup :=
    ((sortBy_perm key records).map key).nodup_iff.mpr distinct
  exact (pairwise_sortBy key records).and (List.pairwise_map.mp sortedDistinct)

/-! Keys that go on with further numbers. -/

/-- Where one key comes before another of its length, it does so with anything behind them. -/
theorem Before.append
    {first second : OrderKey}
    (before : Before first second)
    (sameLength : first.length = second.length)
    (further further' : OrderKey) :
    Before (first ++ further) (second ++ further') := by
  refine ⟨?_, fun same => before.2 (List.append_inj_left same sameLength)⟩
  obtain ⟨notAfter, different⟩ := before
  induction first generalizing second with
  | nil => exact absurd (List.length_eq_zero_iff.mp sameLength.symm).symm different
  | cons number first inductionHypothesis =>
      cases second with
      | nil => cases sameLength
      | cons number' second =>
          simp only [List.cons_append, le, Bool.or_eq_true, decide_eq_true_eq, Bool.and_eq_true,
            beq_iff_eq] at notAfter ⊢
          rcases notAfter with smaller | ⟨rfl, notAfter⟩
          · exact Or.inl smaller
          · refine Or.inr ⟨rfl, inductionHypothesis (Nat.succ.inj sameLength) notAfter ?_⟩
            rintro rfl
            exact different rfl

/-- Keys that differ in the last number only are ordered by it. -/
theorem before_concat
    (key : OrderKey)
    {number number' : Nat}
    (smaller : number < number') :
    Before (key ++ [number]) (key ++ [number']) := by
  refine ⟨?_, fun same => Nat.ne_of_lt smaller (by simpa using same)⟩
  induction key with
  | nil => simp [le, smaller]
  | cons first key inductionHypothesis => simp [le, inductionHypothesis]

end OrderKey

end Flowmark
