import Flowmark.Export.Format
import Flowmark.Proofs.Export.Document

namespace Flowmark

open Text

/-!
# Exports to a path

The extension of a path decides whether a run is exported there.  What is written is the indented
document of the run, from which its marks and its model are read again.
-/

namespace Path

/-- The parts of a path are those between its slashes. -/
theorem parts_eq_splitOn
    (path : List Char) :
    parts path = path.splitOn '/' := by
  induction path with
  | nil => rfl
  | cons c path inductionHypothesis =>
      rw [parts, inductionHypothesis, List.splitOn, List.splitOn,
        List.splitOnP_cons_eq_if_modifyHead]
      by_cases isSlash : c = '/'
      · simp [isSlash]
      · cases shape : path.splitOnP (· == '/') with
        | nil => exact absurd shape (List.splitOnP_ne_nil _ _)
        | cons first others => simp [isSlash]

/-- Read from its end, a name is cut at its last point. -/
theorem cut_at_last_point
    {suffix : List Char}
    (noPoint : '.' ∉ suffix)
    (stem : List Char) :
    (stem ++ '.' :: suffix).reverse.takeWhile (· ≠ '.') = suffix.reverse ∧
      (stem ++ '.' :: suffix).reverse.dropWhile (· ≠ '.') = '.' :: stem.reverse := by
  have noneInReverse : ∀ c ∈ suffix.reverse, decide (c ≠ '.') = true := by
    intro c member
    refine decide_eq_true ?_
    rintro rfl
    exact noPoint (List.mem_reverse.mp member)
  rw [List.reverse_append, List.reverse_cons, List.append_assoc, List.singleton_append,
    List.takeWhile_append_of_pos noneInReverse, List.dropWhile_append_of_pos noneInReverse]
  simp

/-- The suffix of a name stands behind its last point, with something in front of the point. -/
theorem suffix?_eq_some_iff
    {name suffix : List Char} :
    suffix? name = some suffix ↔
      '.' ∉ suffix ∧ ∃ stem, stem ≠ [] ∧ name = stem ++ '.' :: suffix := by
  constructor
  · intro isSuffix
    have whole := name.reverse.takeWhile_append_dropWhile (p := (· ≠ '.'))
    have noPoint : '.' ∉ name.reverse.takeWhile (· ≠ '.') := by
      intro member
      simpa using List.all_eq_true.mp List.all_takeWhile _ member
    unfold suffix? at isSuffix
    split at isSuffix
    · cases isSuffix
    · cases isSuffix
    · rename_i notEmpty notLeading
      cases isSuffix
      refine ⟨by simpa using noPoint, ?_⟩
      cases behind : name.reverse.dropWhile (· ≠ '.') with
      | nil => exact absurd behind notEmpty
      | cons c front =>
          have isPoint : c = '.' := by
            have failed := List.head?_dropWhile_not (· ≠ '.') name.reverse
            rw [behind] at failed
            simpa using failed
          refine ⟨front.reverse, ?_, ?_⟩
          · rintro isEmpty
            rw [List.reverse_eq_nil_iff.mp isEmpty] at behind
            exact notLeading c behind
          · rw [behind, isPoint] at whole
            simpa using (congrArg List.reverse whole).symm
  · rintro ⟨noPoint, stem, notEmpty, rfl⟩
    obtain ⟨before, behind⟩ := cut_at_last_point noPoint stem
    obtain ⟨last, front, shape⟩ :=
      List.exists_cons_of_ne_nil (mt List.reverse_eq_nil_iff.mp notEmpty)
    rw [suffix?, behind, before, shape, List.reverse_reverse]

/-- The file that a path names has an extension, in any letter case. -/
def HasExtension
    (path : String)
    (extension : String) :
    Prop :=
  ∃ own, extension? path.toList = some own ∧ foldCase own = extension.toList

end Path

namespace ExportFormat

/-- The only format is that of a file with the extension `json`, in any letter case. -/
theorem ofPath?_eq_some_iff
    {path : String}
    {format : ExportFormat} :
    ofPath? path = some format ↔ format = json ∧ Path.HasExtension path "json" := by
  unfold ofPath?
  cases isExtension : Path.extension? path.toList with
  | none => simp [Path.HasExtension, isExtension]
  | some extension =>
      have isJson :
          String.ofList (foldCase extension) = "json" ↔ Path.HasExtension path "json" := by
        rw [← String.toList_inj, String.toList_ofList]
        simp [Path.HasExtension, isExtension]
      have isListed : json.extensions.contains (String.ofList (foldCase extension)) = true ↔
          Path.HasExtension path "json" := by
        rw [← isJson]
        simp [json]
      rw [← isListed]
      cases listed : json.extensions.contains (String.ofList (foldCase extension)) with
      | true => simp only [all, List.find?_cons, listed, Option.some.injEq, and_true, eq_comm]
      | false =>
          simp only [all, List.find?_cons, listed, List.find?_nil, Bool.false_eq_true, and_false,
            reduceCtorEq]

/-- A path without that extension has no format. -/
theorem ofPath?_eq_none_iff
    {path : String} :
    ofPath? path = none ↔ ¬ Path.HasExtension path "json" := by
  rw [Option.eq_none_iff_forall_ne_some]
  exact ⟨fun noFormat hasExtension => noFormat json (ofPath?_eq_some_iff.mpr ⟨rfl, hasExtension⟩),
    fun noExtension _ isFormat => noExtension (ofPath?_eq_some_iff.mp isFormat).2⟩

end ExportFormat

namespace Run

/--
A run is not exported to a path whose extension is other than `json`, nor where no file can be made.
Everywhere else its indented document is written, which does not depend on the path.
-/
theorem contentFor_outcome
    (run : Run)
    (directories : List (List (List Char)))
    (path : String) :
    ¬ Path.HasExtension path "json" ∧
        run.contentFor directories path = .error (.unsupported path) ∨
      Path.HasExtension path "json" ∧
        Path.isCreatable directories path.toList = false ∧
        run.contentFor directories path = .error (.unwritable path) ∨
      Path.HasExtension path "json" ∧
        Path.isCreatable directories path.toList = true ∧
        run.contentFor directories path = .ok (run.jsonText true) := by
  unfold contentFor
  cases isFormat : ExportFormat.ofPath? path with
  | none => exact Or.inl ⟨ExportFormat.ofPath?_eq_none_iff.mp isFormat, rfl⟩
  | some format =>
      obtain ⟨rfl, hasExtension⟩ := ExportFormat.ofPath?_eq_some_iff.mp isFormat
      cases creatable : Path.isCreatable directories path.toList with
      | false => exact Or.inr (Or.inl ⟨hasExtension, rfl, rfl⟩)
      | true => exact Or.inr (Or.inr ⟨hasExtension, rfl, rfl⟩)

/-- What is written to a path is read as the document of the run. -/
theorem read?_contentFor
    {run : Run}
    {directories : List (List (List Char))}
    {path content : String}
    (exported : run.contentFor directories path = .ok content) :
    Json.read? content.toList = some run.toJson := by
  rcases run.contentFor_outcome directories path with
    ⟨_, failed⟩ | ⟨_, _, failed⟩ | ⟨_, _, written⟩
  · rw [failed] at exported
    cases exported
  · rw [failed] at exported
    cases exported
  · rw [written] at exported
    cases exported
    exact run.read?_jsonText true

end Run

end Flowmark
