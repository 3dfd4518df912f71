import Mathlib
import Flowmark.Proofs.Json.Grammar
import Flowmark.Proofs.Settings.Keywords
import Flowmark.Settings.Json

namespace Flowmark

/-!
# Settings described by a JSON text

A document describes keywords and a workflow by the fields that are known, wherever they stand among
others; a field that would have its standard value may be left out.  Reading any text of such a
document gives the settings to which the keywords are added one after another, and for which the
workflow is chosen.
-/

namespace Json

/-- The value of a field among others, which is left out or given once. -/
inductive HasField
    (fields : List (String × Json))
    (name : String) :
    Option Json → Prop where
  | leftOut
      (absent : ∀ field ∈ fields, field.1 ≠ name) :
      HasField fields name none
  | given
      {value : Json}
      (before after : List (String × Json))
      (split : fields = before ++ (name, value) :: after)
      (once : ∀ field ∈ before ++ after, field.1 ≠ name) :
      HasField fields name (some value)

/-- A field that is given is found with its value, and one that is left out is not found. -/
theorem field?_of_hasField
    {fields : List (String × Json)}
    {name : String}
    {value : Option Json}
    (hasField : HasField fields name value) :
    field? (fields.map fun (name, value) => (some name, value)) name = some value := by
  -- Fields of another name are dropped, so what stands before and behind the field adds nothing.
  have noOther : ∀ {others : List (String × Json)}, (∀ field ∈ others, field.1 ≠ name) →
      (others.map fun (name, value) => (some name, value)).filter (·.1 = some name) = [] := by
    intro others absent
    rw [List.filter_map, List.map_eq_nil_iff, List.filter_eq_nil_iff]
    simpa using absent
  cases hasField with
  | leftOut absent => rw [field?, noOther absent]
  | given before after split once =>
      obtain ⟨notBefore, notAfter⟩ := List.forall_mem_append.mp once
      rw [split, List.map_append, List.map_cons, field?, List.filter_append, noOther notBefore,
        List.filter_cons_of_pos (by simp), noOther notAfter]
      rfl

/-- The known fields of a record are read in the order of the list of their names. -/
theorem known?_record
    {fields : List (String × Json)}
    {names : List String}
    {values : List (Option Json)}
    (haveFields : List.Forall₂ (HasField fields) names values) :
    known? names (record fields) = some values := by
  have allNamed : (fields.map fun (name, value) => (some name, value)).all (·.1.isSome) = true := by
    simp
  rw [record, known?, if_pos allNamed]
  induction haveFields with
  | nil => rfl
  | cons first others inductionHypothesis =>
      rw [List.mapM_cons, field?_of_hasField first, inductionHypothesis]
      rfl

/-- The one known field of a record is read with its value. -/
theorem only?_record
    {fields : List (String × Json)}
    {name : String}
    {value : Option Json}
    (hasField : HasField fields name value) :
    only? name (record fields) = some value := by
  rw [only?, known?_record (.cons hasField .nil)]

end Json

namespace Settings

/-! ## Documents -/

/-- Keywords as a record of spellings with the names of their tags, in order. -/
inductive DescribesKeywords : List (String × Tag) → Option Json → Prop where
  | leftOut :
      DescribesKeywords [] none
  | listed
      (keywords : List (String × Tag)) :
      DescribesKeywords keywords
        (some (.record (keywords.map fun (keyword, tag) => (keyword, .text tag.name))))

/-- A workflow by its name, and no workflow by `null`. -/
inductive DescribesWorkflow : Option String → Option Json → Prop where
  | leftOut :
      DescribesWorkflow none none
  | null :
      DescribesWorkflow none (some .null)
  | named
      (name : String) :
      DescribesWorkflow (some name) (some (.text name))

/-- A part of the settings with one known field, which says what is described. -/
inductive DescribesPart
    (name : String)
    (describes : Option Json → Prop) :
    Option Json → Prop where
  | leftOut
      (nothing : describes none) :
      DescribesPart name describes none
  | record
      {fields : List (String × Json)}
      {value : Option Json}
      (hasField : Json.HasField fields name value)
      (described : describes value) :
      DescribesPart name describes (some (.record fields))

/-- A document that describes keywords and a workflow, with any other named values besides. -/
inductive Describes
    (keywords : List (String × Tag))
    (workflow : Option String) :
    Json → Prop where
  | record
      {fields : List (String × Json)}
      {extract model : Option Json}
      (hasExtract : Json.HasField fields "extract" extract)
      (hasModel : Json.HasField fields "model" model)
      (extractDescribed : DescribesPart "extra_keywords" (DescribesKeywords keywords) extract)
      (modelDescribed : DescribesPart "workflow" (DescribesWorkflow workflow) model) :
      Describes keywords workflow (.record fields)

/-! ## Reading them -/

/-- A record of spellings and tag names is read as these keywords. -/
theorem keywordsOfJson?_record
    (keywords : List (String × Tag)) :
    keywordsOfJson? (.record (keywords.map fun (keyword, tag) => (keyword, .text tag.name))) =
      some (OrderedMap.ofList keywords) := by
  have reads : ((keywords.map fun (keyword, tag) => (keyword, Json.text tag.name)).map
      fun (name, value) => (some name, value)).mapM keywordOfField? = some keywords := by
    induction keywords with
    | nil => rfl
    | cons entry keywords inductionHypothesis =>
        rw [List.map_cons, List.map_cons, List.mapM_cons, inductionHypothesis]
        simp [keywordOfField?, Json.text, Tag.ofJson?]
  rw [Json.record, keywordsOfJson?, reads, Option.map_some]

/-- A value that describes keywords is read as the map of these. -/
theorem part_of_describesKeywords
    {keywords : List (String × Tag)}
    {value : Option Json}
    (described : DescribesKeywords keywords value) :
    part .empty keywordsOfJson? value = some (OrderedMap.ofList keywords) := by
  cases described with
  | leftOut => rfl
  | listed => exact keywordsOfJson?_record keywords

/-- A value that describes a workflow is read as its name. -/
theorem part_of_describesWorkflow
    {workflow : Option String}
    {value : Option Json}
    (described : DescribesWorkflow workflow value) :
    part none workflowOfJson? value = some workflow := by
  cases described <;> rfl

/-- A part is read as its known field is, whatever other fields are there. -/
theorem part_of_describesPart
    {standard result : α}
    {read : Json → Option α}
    {name : String}
    {describes : Option Json → Prop}
    {value : Option Json}
    (described : DescribesPart name describes value)
    (reads : ∀ field, describes field → part standard read field = some result) :
    part standard (fun value => (Json.only? name value).bind (part standard read)) value =
      some result := by
  cases described with
  | leftOut nothing => exact reads none nothing
  | record hasField described =>
      rw [part, Json.only?_record hasField, Option.bind_some, reads _ described]

/-- A document is read as the keywords and the workflow that it describes. -/
theorem ofJson?_of_describes
    {keywords : List (String × Tag)}
    {workflow : Option String}
    {document : Json}
    (describes : Describes keywords workflow document) :
    ofJson? document = some { extraKeywords := OrderedMap.ofList keywords, workflow } := by
  cases describes with
  | @record fields extract model hasExtract hasModel extractDescribed modelDescribed =>
      have known : Json.known? ["extract", "model"] (.record fields) = some [extract, model] :=
        Json.known?_record (.cons hasExtract (.cons hasModel .nil))
      have readExtract : part .empty extractOfJson? extract = some (OrderedMap.ofList keywords) :=
        part_of_describesPart extractDescribed fun _ => part_of_describesKeywords
      have readModel : part none modelOfJson? model = some workflow :=
        part_of_describesPart modelDescribed fun _ => part_of_describesWorkflow
      simp only [ofJson?, known, readExtract, readModel]

/-- The standard settings with keywords added one after another, and a workflow chosen if any. -/
def composed
    (keywords : List (String × Tag))
    (workflow : Option String) :
    Settings :=
  let extended :=
    keywords.foldl (fun settings (keyword, tag) => settings.addKeyword keyword tag) standard
  match workflow with
  | none => extended
  | some name => extended.chooseWorkflow name

/-- Composed settings have the map of the keywords and the workflow. -/
theorem composed_eq
    (keywords : List (String × Tag))
    (workflow : Option String) :
    composed keywords workflow =
      { extraKeywords := OrderedMap.ofList keywords, workflow } := by
  unfold composed
  rw [← addKeywords_eq_foldl]
  cases workflow <;> rfl

/--
Any text of a document that describes keywords and a workflow is read as the settings composed of
them: whatever the order of the fields, the fields besides, the escapes in strings and the space
between tokens.
-/
theorem read?_of_describes
    {text : String}
    {document : Json}
    {keywords : List (String × Tag)}
    {workflow : Option String}
    (spells : Json.Spells text.toList document.tokens)
    (describes : Describes keywords workflow document) :
    read? text = some (composed keywords workflow) := by
  rw [read?, Json.read?_eq_some_iff.mpr spells, Option.bind_some, ofJson?_of_describes describes,
    composed_eq]

set_option maxRecDepth 2000 in
/-- Other fields, fields in another order, escapes and a spelling that is given again. -/
theorem reads_escaped_text :
    let text := "\x7b\"a\":[\"\\ud800\",-1.5e3],\n " ++
      "\"\\u006dodel\" :\x7b\"workflow\":\"b\\/c\"\x7d,\"extract\":\x7b\"extra_keywords\":" ++
      "\x7b\"@X\":\"In\",\"@x\":\"Out\",\"@X\":\"End\"\x7d\x7d\x7d"
    let document := Json.record [
      ("a", .array [.string none, .number (-15) 2]),
      ("model", .record [("workflow", .text "b/c")]),
      ("extract", .record [("extra_keywords",
        .record [("@X", .text "In"), ("@x", .text "Out"), ("@X", .text "End")])])]
    let keywords := [("@X", Tag.input), ("@x", Tag.output), ("@X", Tag.finish)]
    Json.Spells text.toList document.tokens ∧
      Describes keywords (some "b/c") document ∧
      read? text = some (composed keywords (some "b/c")) ∧
      (composed keywords (some "b/c")).extraKeywords.entries =
        [("@X", .finish), ("@x", .output)] := by
  intro text document keywords
  have spells : Json.Spells text.toList document.tokens :=
    Json.spells_of_tokens? (by cbv)
  have describes : Describes keywords (some "b/c") document :=
    .record
      (.given [("a", _), ("model", _)] [] rfl (by decide))
      (.given [("a", _)] [("extract", _)] rfl (by decide))
      (.record (.given [] [] rfl (by simp)) (.listed keywords))
      (.record (.given [] [] rfl (by simp)) (.named "b/c"))
  exact ⟨spells, describes, read?_of_describes spells describes, by decide⟩

end Settings

end Flowmark
