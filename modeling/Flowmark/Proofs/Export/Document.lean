import Flowmark.Export.Format
import Flowmark.Proofs.Json.RoundTrip

namespace Flowmark

open Json

/-!
# Exported documents

Every record of a run is determined by its value in exported data, so the exported text of a run, in
either layout, determines the marks and the model.
-/

/-! ## Names and values -/

/-- No two tags have one name. -/
@[simp] theorem Tag.name_inj
    {first second : Tag} :
    first.name = second.name ↔ first = second := by
  constructor
  · intro same
    have found := Tag.ofName?_name first
    rw [same, Tag.ofName?_name] at found
    exact (Option.some.inj found).symm
  · exact congrArg Tag.name

/-- No two kinds of names have one name. -/
@[simp] theorem NameKind.name_inj
    {first second : NameKind} :
    first.name = second.name ↔ first = second := by
  cases first <;> cases second <;> decide

/-- No two directions have one name. -/
@[simp] theorem Direction.name_inj
    {first second : Direction} :
    first.name = second.name ↔ first = second := by
  cases first <;> cases second <;> decide

/-- No two kinds of programs have one name. -/
@[simp] theorem ProgramKind.name_inj
    {first second : ProgramKind} :
    first.name = second.name ↔ first = second := by
  cases first <;> cases second <;> decide

namespace Json

@[simp] theorem text_inj
    {first second : String} :
    text first = text second ↔ first = second := by
  simp [text]

@[simp] theorem nat_inj
    {first second : Nat} :
    nat first = nat second ↔ first = second := by
  simp only [nat, number.injEq, Int.ofNat_inj, and_true]

@[simp] theorem record_inj
    {first second : List (String × Json)} :
    record first = record second ↔ first = second := by
  have sameFields : ∀ field field' : String × Json,
      (some field.1, field.2) = (some field'.1, field'.2) → field = field' := by
    rintro ⟨name, value⟩ ⟨name', value'⟩ same
    simpa using same
  constructor
  · intro same
    exact (List.map_inj_right sameFields).mp (Json.object.inj same)
  · exact congrArg record

/-- A list of values determines the items where each value determines its item. -/
theorem list_injective
    {α : Type}
    {encode : α → Json}
    (injective : Function.Injective encode) :
    Function.Injective (list encode) := by
  intro first second same
  exact (List.map_inj_right fun _ _ => @injective _ _).mp (Json.array.inj same)

/-- What may be absent is determined where nothing that is present is written as `null`. -/
theorem optional_injective
    {α : Type}
    {encode : α → Json}
    (injective : Function.Injective encode)
    (notNull : ∀ value, encode value ≠ .null) :
    Function.Injective (optional encode) := by
  intro first second same
  cases first with
  | none =>
      cases second with
      | none => rfl
      | some value => exact absurd same.symm (notNull value)
  | some value =>
      cases second with
      | none => exact absurd same (notNull value)
      | some value' => exact congrArg some (injective same)

/-- A list of numbers is determined by its value. -/
@[simp] theorem list_nat_inj
    {first second : List Nat} :
    list nat first = list nat second ↔ first = second :=
  (list_injective fun _ _ => nat_inj.mp).eq_iff

/-- A number that may be absent is determined by its value. -/
@[simp] theorem optional_nat_inj
    {first second : Option Nat} :
    optional nat first = optional nat second ↔ first = second :=
  (optional_injective (fun _ _ => nat_inj.mp) (by simp [nat])).eq_iff

/-- A text that may be absent is determined by its value. -/
@[simp] theorem optional_text_inj
    {first second : Option String} :
    optional text first = optional text second ↔ first = second :=
  (optional_injective (fun _ _ => text_inj.mp) (by simp [text])).eq_iff

end Json

/-! ## Records -/

theorem Location.toJson_injective :
    Function.Injective Location.toJson := by
  rintro ⟨source, line, comment, rank⟩ ⟨source', line', comment', rank'⟩ same
  simpa [toJson] using same

theorem Mark.toJson_injective :
    Function.Injective Mark.toJson := by
  rintro ⟨⟨location, tag, keyword, name, nameKind, description, qualifies⟩, id⟩
    ⟨⟨location', tag', keyword', name', nameKind', description', qualifies'⟩, id'⟩ same
  simp only [toJson, record_inj, List.cons.injEq, Prod.mk.injEq, true_and, and_true, nat_inj,
    text_inj, Location.toJson_injective.eq_iff, Tag.name_inj, NameKind.name_inj,
    optional_text_inj, optional_nat_inj] at same
  simp [same]

theorem Program.toJson_injective :
    Function.Injective Program.toJson := by
  rintro ⟨id, name, kind, parent, openedBy, closedBy, inputs, outputs, results, children, channels,
      artifacts⟩
    ⟨id', name', kind', parent', openedBy', closedBy', inputs', outputs', results', children',
      channels', artifacts'⟩ same
  simpa [toJson] using same

theorem Port.toJson_injective :
    Function.Injective Port.toJson := by
  rintro ⟨id, owner, mark, tag, direction, name, nameKind, binding, description, uri⟩
    ⟨id', owner', mark', tag', direction', name', nameKind', binding', description', uri'⟩ same
  simpa [toJson] using same

theorem Channel.toJson_injective :
    Function.Injective Channel.toJson := by
  rintro ⟨id, scope, source, sink, artifact⟩ ⟨id', scope', source', sink', artifact'⟩ same
  simpa [toJson] using same

theorem Artifact.toJson_injective :
    Function.Injective Artifact.toJson := by
  rintro ⟨id, scope, name, uri, ports⟩ ⟨id', scope', name', uri', ports'⟩ same
  simpa [toJson] using same

/-- A model is determined by its record. -/
theorem Model.toJson_injective :
    Function.Injective Model.toJson := by
  rintro ⟨⟨programs, ports, channels, artifacts⟩, topLevel, root⟩
    ⟨⟨programs', ports', channels', artifacts'⟩, topLevel', root'⟩ same
  simpa [toJson, (list_injective Program.toJson_injective).eq_iff,
    (list_injective Port.toJson_injective).eq_iff,
    (list_injective Channel.toJson_injective).eq_iff,
    (list_injective Artifact.toJson_injective).eq_iff, and_assoc] using same

namespace Run

/-- The document of a run determines its marks and its model, and is determined by them. -/
theorem toJson_eq_iff
    {first second : Run} :
    first.toJson = second.toJson ↔
      first.transcript = second.transcript ∧ first.model = second.model := by
  rcases first with ⟨comments, ⟨marks, numbered⟩, model⟩
  rcases second with ⟨comments', ⟨marks', numbered'⟩, model'⟩
  simp [toJson, (list_injective Mark.toJson_injective).eq_iff, Model.toJson_injective.eq_iff]

/-- In either layout, the exported text of a run is read as the document of the run. -/
theorem read?_jsonText
    (run : Run)
    (indented : Bool) :
    Json.read? (run.jsonText indented).toList = some run.toJson := by
  rw [jsonText, render, String.toList_ofList]
  cases indented with
  | false => exact read?_write Layout.isSpace_compact 0 run.toJson
  | true => exact read?_write Layout.isSpace_indented 0 run.toJson

/--
The exported texts of a run are well formed, and both are read as one value.  This value determines
the marks and the model of the run, and so does the text in either layout.
-/
theorem jsonText_determines
    (run : Run) :
    (∀ indented, Json.read? (run.jsonText indented).toList = some run.toJson) ∧
      (∀ other : Run,
        other.toJson = run.toJson ↔
          other.transcript = run.transcript ∧ other.model = run.model) ∧
      ∀ (other : Run) (indented : Bool),
        other.jsonText indented = run.jsonText indented ↔
          other.transcript = run.transcript ∧ other.model = run.model := by
  refine ⟨run.read?_jsonText, fun other => toJson_eq_iff, fun other indented => ?_⟩
  rw [← toJson_eq_iff]
  constructor
  · intro sameText
    have reads := other.read?_jsonText indented
    rw [sameText, run.read?_jsonText] at reads
    exact (Option.some.inj reads).symm
  · intro sameValue
    rw [jsonText, jsonText, sameValue]

end Run

end Flowmark
