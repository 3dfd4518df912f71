namespace Flowmark

/-! # Maps in insertion order

An ordered map lists its entries in the order in which their keys first came.  Giving a key that
is already there replaces its value and keeps its place.
-/

/-- A finite map whose entries keep the order of their first insertion. -/
structure OrderedMap (κ : Type u) (α : Type v) where
  entries : List (κ × α)
  distinct : (entries.map Prod.fst).Nodup
  deriving Repr, DecidableEq

namespace OrderedMap

variable {κ : Type u} {α : Type v}

/-- The map without entries. -/
def empty : OrderedMap κ α where
  entries := []
  distinct := List.nodup_nil

instance : Inhabited (OrderedMap κ α) :=
  ⟨empty⟩

/-- The keys in the order of their first insertion. -/
def keys
    (map : OrderedMap κ α) :
    List κ :=
  map.entries.map Prod.fst

/-- The number of keys. -/
def size
    (map : OrderedMap κ α) :
    Nat :=
  map.entries.length

/-- Whether the map has no entry. -/
def isEmpty
    (map : OrderedMap κ α) :
    Bool :=
  map.entries.isEmpty

@[simp] theorem keys_empty :
    (empty : OrderedMap κ α).keys = [] :=
  rfl

variable [DecidableEq κ]

/-- The value of the first entry with a key. -/
def lookup?
    (key : κ) :
    List (κ × α) → Option α
  | [] => none
  | entry :: rest => if entry.1 = key then some entry.2 else lookup? key rest

/-- The value stored under a key. -/
def get?
    (map : OrderedMap κ α)
    (key : κ) :
    Option α :=
  lookup? key map.entries

/-- Entries in which a present key has a new value. -/
def replace
    (key : κ)
    (value : α)
    (entries : List (κ × α)) :
    List (κ × α) :=
  entries.map fun entry => if entry.1 = key then (entry.1, value) else entry

/-- Replacing a value leaves the keys. -/
theorem map_fst_replace
    (key : κ)
    (value : α)
    (entries : List (κ × α)) :
    (replace key value entries).map Prod.fst = entries.map Prod.fst := by
  simp only [replace, List.map_map]
  apply List.map_congr_left
  intro entry _
  simp only [Function.comp_apply]
  split <;> rfl

/-- Store a value: a new key goes to the end, a present key keeps its place. -/
def insert
    (map : OrderedMap κ α)
    (key : κ)
    (value : α) :
    OrderedMap κ α :=
  if present : key ∈ map.keys then
    { entries := replace key value map.entries
      distinct := by
        rw [map_fst_replace]
        exact map.distinct }
  else
    { entries := map.entries ++ [(key, value)]
      distinct := by
        have fresh : ∀ known ∈ map.entries.map Prod.fst, known ≠ key := by
          intro known member same
          exact present (same ▸ member)
        simpa [List.nodup_append, map.distinct] using fresh }

/-- Store a list of entries one after another. -/
def insertAll
    (map : OrderedMap κ α)
    (entries : List (κ × α)) :
    OrderedMap κ α :=
  entries.foldl (fun map (key, value) => map.insert key value) map

/-- The map built from the empty one by storing a list of entries one after another. -/
def ofList
    (entries : List (κ × α)) :
    OrderedMap κ α :=
  empty.insertAll entries

/-- An inserted key is among the keys, at the end unless it was there before. -/
theorem keys_insert
    (map : OrderedMap κ α)
    (key : κ)
    (value : α) :
    (map.insert key value).keys =
      if key ∈ map.keys then map.keys else map.keys ++ [key] := by
  unfold insert
  split
  · exact map_fst_replace key value map.entries
  · simp [keys]

/-- The new value is found under its key where there was one before. -/
theorem lookup?_replace
    (key sought : κ)
    (value : α)
    (entries : List (κ × α)) :
    lookup? sought (replace key value entries) =
      if sought = key then
        (lookup? key entries).map fun _ => value
      else
        lookup? sought entries := by
  induction entries with
  | nil => simp [replace, lookup?]
  | cons entry entries inductionHypothesis =>
      unfold replace at inductionHypothesis ⊢
      by_cases isKey : entry.1 = key
      · by_cases isSought : sought = key
        · simp [lookup?, isKey, isSought]
        · have notSought : ¬ key = sought := fun same => isSought same.symm
          simp [lookup?, isKey, isSought, notSought, inductionHypothesis]
      · by_cases isSought : sought = key
        · simp only [isSought, if_true] at inductionHypothesis ⊢
          simp [lookup?, isKey, inductionHypothesis]
        · simp [lookup?, isKey, isSought, inductionHypothesis]

/-- Entries in front are looked up first. -/
theorem lookup?_append
    (key : κ)
    (left right : List (κ × α)) :
    lookup? key (left ++ right) = (lookup? key left).or (lookup? key right) := by
  induction left with
  | nil => rfl
  | cons entry left inductionHypothesis =>
      by_cases isKey : entry.1 = key
      · simp [lookup?, isKey]
      · simp [lookup?, isKey, inductionHypothesis]

/-- A key of the entries is found, and no other key. -/
theorem isSome_lookup?
    (key : κ)
    (entries : List (κ × α)) :
    (lookup? key entries).isSome ↔ key ∈ entries.map Prod.fst := by
  induction entries with
  | nil => simp [lookup?]
  | cons entry entries inductionHypothesis =>
      by_cases isKey : entry.1 = key
      · simp [lookup?, isKey]
      · have other : ¬ key = entry.1 := fun same => isKey same.symm
        simp only [lookup?, isKey, if_false, inductionHypothesis, List.map_cons, List.mem_cons,
          other, false_or]

/-- A key is present exactly when a value is stored under it. -/
theorem isSome_get?
    (map : OrderedMap κ α)
    (key : κ) :
    (map.get? key).isSome ↔ key ∈ map.keys :=
  isSome_lookup? key map.entries

/-- After an insertion the new value stands under its key and all other keys are as before. -/
theorem get?_insert
    (map : OrderedMap κ α)
    (key sought : κ)
    (value : α) :
    (map.insert key value).get? sought =
      if sought = key then some value else map.get? sought := by
  unfold insert
  split
  · rename_i present
    unfold get?
    rw [lookup?_replace]
    split
    · obtain ⟨old, stored⟩ := Option.isSome_iff_exists.mp ((isSome_get? map key).mpr present)
      rw [show lookup? key map.entries = some old from stored, Option.map_some]
    · rfl
  · rename_i absent
    unfold get?
    rw [lookup?_append]
    by_cases same : sought = key
    · have unknown : lookup? key map.entries = none := by
        rw [← Option.not_isSome_iff_eq_none]
        exact fun stored => absent ((isSome_get? map key).mp stored)
      simp [lookup?, same, unknown]
    · have other : ¬ key = sought := fun equal => same equal.symm
      simp [lookup?, same, other]

@[simp] theorem get?_empty
    (key : κ) :
    (empty : OrderedMap κ α).get? key = none :=
  rfl

end OrderedMap

end Flowmark
