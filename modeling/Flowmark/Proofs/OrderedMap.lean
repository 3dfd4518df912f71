import Flowmark.OrderedMap
import Mathlib.Data.List.Nodup

namespace Flowmark.OrderedMap

/-!
# Maps after a list of insertions

After a list of insertions the keys stand in the order in which they first came, and under each key
stands the value that came last.  What is stored in a map is what its entries list.
-/

variable {κ : Type u} {α : Type v}

/-! ## Entries and keys -/

/-- No key of a map is listed twice. -/
theorem eraseDups_keys
    [BEq κ]
    [LawfulBEq κ]
    (map : OrderedMap κ α) :
    map.keys.eraseDups = map.keys := by
  have unchanged : ∀ keys : List κ, keys.Nodup → keys.eraseDups = keys := by
    intro keys distinct
    induction keys with
    | nil => rfl
    | cons key keys inductionHypothesis =>
        obtain ⟨notLater, laterDistinct⟩ := List.nodup_cons.mp distinct
        have keepsOthers : keys.filter (fun other => !other == key) = keys := by
          rw [List.filter_eq_self]
          intro other isLater
          simpa using ne_of_mem_of_not_mem isLater notLater
        rw [List.eraseDups_cons, keepsOthers, inductionHypothesis laterDistinct]
  exact unchanged map.keys map.distinct

variable [DecidableEq κ]

/-- Where keys are distinct, what is found is exactly what the entries say. -/
theorem lookup?_eq_some_iff
    {entries : List (κ × α)}
    (distinct : (entries.map Prod.fst).Nodup)
    {key : κ}
    {value : α} :
    lookup? key entries = some value ↔ (key, value) ∈ entries := by
  induction entries with
  | nil => simp [lookup?]
  | cons entry entries inductionHypothesis =>
      obtain ⟨notLater, laterDistinct⟩ := List.nodup_cons.mp distinct
      rw [lookup?, List.mem_cons]
      split
      · rename_i isKey
        have onlyHere : (key, value) ∉ entries := fun isLater =>
          notLater (isKey ▸ List.mem_map_of_mem isLater)
        simp [onlyHere, Prod.ext_iff, isKey, eq_comm]
      · rename_i isOther
        have notHere : (key, value) ≠ entry := fun same => isOther (same ▸ rfl)
        rw [inductionHypothesis laterDistinct]
        simp [notHere]

/-- The entries of a map are what is stored under its keys. -/
theorem get?_eq_some_iff
    (map : OrderedMap κ α)
    (key : κ)
    (value : α) :
    map.get? key = some value ↔ (key, value) ∈ map.entries :=
  lookup?_eq_some_iff map.distinct

/-- The last entry whose key passes a test has what is stored under the last such key. -/
theorem map_snd_findRev?
    (map : OrderedMap κ α)
    (passes : κ → Bool) :
    (map.entries.findRev? fun entry => passes entry.1).map Prod.snd =
      (map.keys.findRev? passes).bind map.get? := by
  have lastKey : map.keys.findRev? passes =
      (map.entries.findRev? fun entry => passes entry.1).map Prod.fst := by
    rw [List.findRev?_eq_find?_reverse, List.findRev?_eq_find?_reverse, keys, ← List.map_reverse,
      List.find?_map]
    rfl
  rw [lastKey]
  cases isLast : map.entries.findRev? fun entry => passes entry.1 with
  | none => rfl
  | some entry =>
      rw [List.findRev?_eq_find?_reverse] at isLast
      have isEntry := List.mem_reverse.mp (List.mem_of_find?_eq_some isLast)
      exact ((get?_eq_some_iff map entry.1 entry.2).mpr isEntry).symm

/-- An insertion adds its key and no other. -/
theorem mem_keys_insert
    {map : OrderedMap κ α}
    {key sought : κ}
    {value : α} :
    sought ∈ (map.insert key value).keys ↔ sought ∈ map.keys ∨ sought = key := by
  rw [keys_insert]
  split
  · rename_i present
    constructor
    · exact Or.inl
    · rintro (isOld | rfl)
      · exact isOld
      · exact present
  · rw [List.mem_append, List.mem_singleton]

/-! ## Many insertions -/

theorem insertAll_cons
    (map : OrderedMap κ α)
    (entry : κ × α)
    (entries : List (κ × α)) :
    map.insertAll (entry :: entries) = (map.insert entry.1 entry.2).insertAll entries :=
  rfl

/-- The keys are listed once each, in the order in which they first came. -/
theorem keys_insertAll
    [BEq κ]
    [LawfulBEq κ]
    (map : OrderedMap κ α)
    (entries : List (κ × α)) :
    (map.insertAll entries).keys = (map.keys ++ entries.map Prod.fst).eraseDups := by
  induction entries generalizing map with
  | nil =>
      rw [List.map_nil, List.append_nil, eraseDups_keys]
      rfl
  | cons entry entries inductionHypothesis =>
      rw [insertAll_cons, inductionHypothesis, keys_insert]
      split
      · rename_i present
        simp [List.eraseDups_append, List.removeAll, present]
      · rw [List.append_assoc, List.singleton_append, List.map_cons]

/-- Under a key stands the value that came last, or else what stood there before. -/
theorem get?_insertAll
    (map : OrderedMap κ α)
    (entries : List (κ × α))
    (key : κ) :
    (map.insertAll entries).get? key =
      ((entries.findRev? fun entry => entry.1 = key).map Prod.snd).or (map.get? key) := by
  induction entries generalizing map with
  | nil => rfl
  | cons entry entries inductionHypothesis =>
      rw [insertAll_cons, inductionHypothesis, get?_insert, List.findRev?]
      cases entries.findRev? fun entry => entry.1 = key with
      | some later => rfl
      | none =>
          by_cases isKey : key = entry.1
          · simp [isKey]
          · have isOther : ¬ entry.1 = key := fun same => isKey same.symm
            simp [isKey, isOther]

end Flowmark.OrderedMap
