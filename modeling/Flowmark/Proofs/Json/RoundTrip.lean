import Flowmark.Proofs.Json.Literal

namespace Flowmark

/-!
# JSON values read again

A value written in a layout of spaces is read as that value.  The tokens of the text are the same in
every layout, so the layouts differ in nothing that is read.
-/

namespace Json

/-! ## The tokens of a value -/

mutual

/-- The tokens of which a value is written. -/
def tokens : Json → List Token
  | .null => [.scalar .null]
  | .bool value => [.scalar (.bool value)]
  | .number mantissa exponent => [.scalar (.number mantissa exponent)]
  | .string content => [.string content]
  | .array [] => [.openArray, .closeArray]
  | .array (item :: items) => .openArray :: (tokens item ++ itemTokens items ++ [.closeArray])
  | .object [] => [.openObject, .closeObject]
  | .object (field :: fields) =>
      .openObject :: (fieldTokens field ++ fieldsTokens fields ++ [.closeObject])

/-- The tokens of items, each after a comma. -/
def itemTokens : List Json → List Token
  | [] => []
  | item :: items => .comma :: (tokens item ++ itemTokens items)

/-- The tokens of a field: its name, a colon and those of its value. -/
def fieldTokens : Option String × Json → List Token
  | (name, value) => .string name :: .colon :: tokens value

/-- The tokens of fields, each after a comma. -/
def fieldsTokens : List (Option String × Json) → List Token
  | [] => []
  | field :: fields => .comma :: (fieldTokens field ++ fieldsTokens fields)

end

/-! ## Cutting a written value into its tokens -/

/-- A layout puts nothing but space between tokens. -/
structure Layout.IsSpace
    (layout : Layout) :
    Prop where
  gap : ∀ depth, ∀ c ∈ layout.gap depth, isSpace c = true
  afterColon : ∀ c ∈ layout.afterColon, isSpace c = true

/-- The compact layout puts nothing between tokens. -/
theorem Layout.isSpace_compact :
    Layout.compact.IsSpace where
  gap := by simp [compact]
  afterColon := by simp [compact]

/-- The indented layout puts line feeds and spaces between tokens. -/
theorem Layout.isSpace_indented :
    Layout.indented.IsSpace where
  gap := by simp [indented, Json.isSpace]
  afterColon := by simp [indented, Json.isSpace]

/-- Space in front of a text is skipped. -/
theorem tokens?_space
    {space : List Char}
    (areSpaces : ∀ c ∈ space, isSpace c = true)
    (rest : List Char) :
    tokens? (space ++ rest) = tokens? rest := by
  induction space with
  | nil => rfl
  | cons c space inductionHypothesis =>
      obtain ⟨isSpace, restSpaces⟩ := List.forall_mem_cons.mp areSpaces
      rw [List.cons_append, tokens?, if_pos isSpace, inductionHypothesis restSpaces]

/-- The text of a token is cut off in front of what follows it. -/
theorem tokens?_of_first?
    {text rest : List Char}
    {token : Token}
    (opens : ∀ c ∈ text.head?, isSpace c = false)
    (isFirst : Token.first? text = some (token, rest)) :
    tokens? text = (tokens? rest).map (token :: ·) := by
  cases text with
  | nil => cases isFirst
  | cons c text =>
      rw [tokens?, if_neg (by simp [opens c (by simp)])]
      split
      · rename_i none
        rw [none] at isFirst
        cases isFirst
      · rename_i found
        rw [found] at isFirst
        cases isFirst
        rfl

theorem tokens?_comma
    (rest : List Char) :
    tokens? (',' :: rest) = (tokens? rest).map (.comma :: ·) :=
  tokens?_of_first? (by simp [isSpace]) rfl

theorem tokens?_colon
    (rest : List Char) :
    tokens? (':' :: rest) = (tokens? rest).map (.colon :: ·) :=
  tokens?_of_first? (by simp [isSpace]) rfl

theorem tokens?_openArray
    (rest : List Char) :
    tokens? ('[' :: rest) = (tokens? rest).map (.openArray :: ·) :=
  tokens?_of_first? (by simp [isSpace]) rfl

theorem tokens?_closeArray
    (rest : List Char) :
    tokens? (']' :: rest) = (tokens? rest).map (.closeArray :: ·) :=
  tokens?_of_first? (by simp [isSpace]) rfl

theorem tokens?_openObject
    (rest : List Char) :
    tokens? ('\x7b' :: rest) = (tokens? rest).map (.openObject :: ·) :=
  tokens?_of_first? (by simp [isSpace]) rfl

theorem tokens?_closeObject
    (rest : List Char) :
    tokens? ('\x7d' :: rest) = (tokens? rest).map (.closeObject :: ·) :=
  tokens?_of_first? (by simp [isSpace]) rfl

/-- A written literal is a token with its content. -/
theorem tokens?_literal
    (content : Option String)
    (rest : List Char) :
    tokens? (literal content ++ rest) = (tokens? rest).map (.string content :: ·) := by
  apply tokens?_of_first? _ (first?_literal content rest)
  cases content with
  | none => simp [show literal none = _ from String.toList_ofList, isSpace]
  | some text => simp [show literal (some text) = '"' :: _ from rfl, isSpace]

/-- What stands behind a value in a text: nothing, space, a comma or a closing bracket or brace. -/
def Follows
    (text : List Char) :
    Prop :=
  ∀ c ∈ text.head?, isSpace c = true ∨ c = ',' ∨ c = ']' ∨ c = '\x7d'

/-- What stands behind a value does not continue a numeral. -/
theorem Follows.endsNumeral
    {text : List Char}
    (follows : Follows text) :
    EndsNumeral text := by
  intro c isHead
  have cases := follows c isHead
  simp only [isSpace, Bool.or_eq_true, decide_eq_true_eq] at cases
  rcases cases with (((rfl | rfl) | rfl) | rfl) | rfl | rfl | rfl <;> decide

/-- What opens a numeral is no space. -/
theorem not_isSpace_of_isDigit
    {c : Char}
    (opens : c.isDigit = true ∨ c = '-') :
    isSpace c = false := by
  cases space : isSpace c with
  | false => rfl
  | true =>
      simp only [isSpace, Bool.or_eq_true, decide_eq_true_eq] at space
      rcases space with ((rfl | rfl) | rfl) | rfl <;> exact absurd opens (by decide)

/-- A written numeral is a token with its number. -/
theorem tokens?_numeral
    (mantissa exponent : Int)
    {rest : List Char}
    (follows : Follows rest) :
    tokens? (numeral mantissa exponent ++ rest) =
      (tokens? rest).map (.scalar (.number mantissa exponent) :: ·) := by
  apply tokens?_of_first? _ (first?_numeral mantissa exponent follows.endsNumeral)
  obtain ⟨c, digits, shape, opens⟩ := numeral_eq_cons mantissa exponent
  intro other isHead
  rw [shape, List.cons_append, List.head?_cons, Option.mem_some] at isHead
  exact isHead ▸ not_isSpace_of_isDigit opens

/-- The space of a layout may stand behind a value. -/
theorem Layout.IsSpace.follows
    {layout : Layout}
    (spaces : layout.IsSpace)
    (depth : Nat)
    {rest : List Char}
    (restFollows : Follows rest) :
    Follows (layout.gap depth ++ rest) := by
  cases shape : layout.gap depth with
  | nil => exact restFollows
  | cons c gap =>
      have isSpace := spaces.gap depth c (by simp [shape])
      simp [Follows, isSpace]

/-- Further items may stand behind a value. -/
theorem follows_writeItems
    (layout : Layout)
    (depth : Nat)
    (items : List Json)
    {rest : List Char}
    (restFollows : Follows rest) :
    Follows (writeItems layout depth items ++ rest) := by
  cases items with
  | nil => exact restFollows
  | cons item items => simp [writeItems, Follows]

/-- Further fields may stand behind a value. -/
theorem follows_writeFields
    (layout : Layout)
    (depth : Nat)
    (fields : List (Option String × Json))
    {rest : List Char}
    (restFollows : Follows rest) :
    Follows (writeFields layout depth fields ++ rest) := by
  cases fields with
  | nil => exact restFollows
  | cons field fields => simp [writeFields, Follows]

section

variable {layout : Layout} (spaces : layout.IsSpace)
include spaces

mutual

/-- A written value is cut into its tokens, whatever follows it. -/
theorem tokens?_write
    (depth : Nat)
    (value : Json)
    {rest : List Char}
    (follows : Follows rest) :
    tokens? (write layout depth value ++ rest) = (tokens? rest).map (tokens value ++ ·) := by
  cases value with
  | null => exact tokens?_of_first? (by simp [isSpace, write]) rfl
  | bool value =>
      cases value with
      | false => exact tokens?_of_first? (by simp [isSpace, write]) rfl
      | true => exact tokens?_of_first? (by simp [isSpace, write]) rfl
  | number mantissa exponent =>
      rw [write, tokens?_numeral mantissa exponent follows]
      rfl
  | string content =>
      rw [write, tokens?_literal]
      rfl
  | array items =>
      cases items with
      | nil =>
          simp [write, tokens, tokens?_openArray, tokens?_closeArray, Function.comp_def]
      | cons item items =>
          have closes : Follows (layout.gap depth ++ (']' :: rest)) :=
            spaces.follows depth (by simp [Follows])
          simp only [write, List.cons_append, List.append_assoc, List.nil_append, tokens?_openArray,
            tokens?_space (spaces.gap _),
            tokens?_write (depth + 1) item (follows_writeItems layout (depth + 1) items closes),
            tokens?_writeItems (depth + 1) items closes, tokens?_closeArray, Option.map_map,
            Function.comp_def, tokens]
  | object fields =>
      cases fields with
      | nil =>
          simp [write, tokens, tokens?_openObject, tokens?_closeObject, Function.comp_def]
      | cons field fields =>
          have closes : Follows (layout.gap depth ++ ('\x7d' :: rest)) :=
            spaces.follows depth (by simp [Follows])
          simp only [write, List.cons_append, List.append_assoc, List.nil_append,
            tokens?_openObject, tokens?_space (spaces.gap _),
            tokens?_writeField (depth + 1) field
              (follows_writeFields layout (depth + 1) fields closes),
            tokens?_writeFields (depth + 1) fields closes, tokens?_closeObject, Option.map_map,
            Function.comp_def, tokens]

/-- Written items are cut into their tokens, whatever follows them. -/
theorem tokens?_writeItems
    (depth : Nat)
    (items : List Json)
    {rest : List Char}
    (follows : Follows rest) :
    tokens? (writeItems layout depth items ++ rest) =
      (tokens? rest).map (itemTokens items ++ ·) := by
  cases items with
  | nil => simp [writeItems, itemTokens]
  | cons item items =>
      simp only [writeItems, List.cons_append, List.append_assoc, tokens?_comma,
        tokens?_space (spaces.gap _),
        tokens?_write depth item (follows_writeItems layout depth items follows),
        tokens?_writeItems depth items follows, Option.map_map, Function.comp_def, itemTokens]

/-- A written field is cut into its tokens, whatever follows it. -/
theorem tokens?_writeField
    (depth : Nat)
    (field : Option String × Json)
    {rest : List Char}
    (follows : Follows rest) :
    tokens? (writeField layout depth field ++ rest) =
      (tokens? rest).map (fieldTokens field ++ ·) := by
  rcases field with ⟨name, value⟩
  simp only [writeField, List.cons_append, List.append_assoc, tokens?_literal, tokens?_colon,
    tokens?_space spaces.afterColon, tokens?_write depth value follows, Option.map_map,
    Function.comp_def, fieldTokens]

/-- Written fields are cut into their tokens, whatever follows them. -/
theorem tokens?_writeFields
    (depth : Nat)
    (fields : List (Option String × Json))
    {rest : List Char}
    (follows : Follows rest) :
    tokens? (writeFields layout depth fields ++ rest) =
      (tokens? rest).map (fieldsTokens fields ++ ·) := by
  cases fields with
  | nil => simp [writeFields, fieldsTokens]
  | cons field fields =>
      simp only [writeFields, List.cons_append, List.append_assoc, tokens?_comma,
        tokens?_space (spaces.gap _),
        tokens?_writeField depth field (follows_writeFields layout depth fields follows),
        tokens?_writeFields depth fields follows, Option.map_map, Function.comp_def, fieldsTokens]

end

end

/-! ## Reading the tokens of a value -/

namespace Reading

/-- A run goes on from where its first step leads. -/
theorem run?_cons
    {reading next : Reading}
    {token : Token}
    (steps : reading.step? token = some next)
    (tokens : List Token) :
    reading.run? (token :: tokens) = next.run? tokens := by
  rw [run?, steps]

/-- The first item of an array is read as a value in the array. -/
theorem run?_firstItem
    (containers : List Container)
    (item : Json)
    (rest : List Token) :
    run? ⟨.firstItem, containers⟩ (item.tokens ++ rest) =
      run? ⟨.value, .array [] :: containers⟩ (item.tokens ++ rest) := by
  cases item with
  | null => rfl
  | bool value => rfl
  | number mantissa exponent => rfl
  | string content => rfl
  | array items =>
      cases items with
      | nil => rfl
      | cons item items => rfl
  | object fields =>
      cases fields with
      | nil => rfl
      | cons field fields => rfl

mutual

/-- The tokens of a value are read as the value, whatever is open and whatever follows. -/
theorem run?_tokens
    (value : Json)
    (containers : List Container)
    (rest : List Token) :
    run? ⟨.value, containers⟩ (value.tokens ++ rest) = run? ⟨.after value, containers⟩ rest := by
  cases value with
  | null => rfl
  | bool value => rfl
  | number mantissa exponent => rfl
  | string content => rfl
  | array items =>
      cases items with
      | nil => rfl
      | cons item items =>
          simp only [tokens, List.cons_append, List.append_assoc, List.nil_append]
          rw [run?_cons rfl, run?_firstItem, run?_tokens item, run?_itemTokens items]
          rfl
  | object fields =>
      cases fields with
      | nil => rfl
      | cons field fields =>
          rcases field with ⟨name, value⟩
          simp only [tokens, fieldTokens, List.cons_append, List.append_assoc, List.nil_append]
          rw [run?_cons rfl, run?_cons rfl, run?_cons rfl, run?_tokens value,
            run?_fieldsTokens fields]
          rfl

/-- Behind an item, the tokens of further items end the array. -/
theorem run?_itemTokens
    (items : List Json)
    (before : List Json)
    (item : Json)
    (containers : List Container)
    (rest : List Token) :
    run? ⟨.after item, .array before :: containers⟩ (itemTokens items ++ .closeArray :: rest) =
      run? ⟨.after (.array (before ++ item :: items)), containers⟩ rest := by
  cases items with
  | nil => rfl
  | cons next items =>
      simp only [itemTokens, List.cons_append, List.append_assoc]
      rw [run?_cons rfl, run?_tokens next, run?_itemTokens items, List.append_assoc]
      rfl

/-- Behind a field, the tokens of further fields end the object. -/
theorem run?_fieldsTokens
    (fields : List (Option String × Json))
    (before : List (Option String × Json))
    (name : Option String)
    (value : Json)
    (containers : List Container)
    (rest : List Token) :
    run? ⟨.after value, .object before name :: containers⟩
        (fieldsTokens fields ++ .closeObject :: rest) =
      run? ⟨.after (.object (before ++ (name, value) :: fields)), containers⟩ rest := by
  cases fields with
  | nil => rfl
  | cons field fields =>
      rcases field with ⟨nextName, next⟩
      simp only [fieldsTokens, fieldTokens, List.cons_append, List.append_assoc]
      rw [run?_cons rfl, run?_cons rfl, run?_cons rfl, run?_tokens next,
        run?_fieldsTokens fields, List.append_assoc]
      rfl

end

end Reading

/-- A value written in a layout of spaces is read as that value. -/
theorem read?_write
    {layout : Layout}
    (spaces : layout.IsSpace)
    (depth : Nat)
    (value : Json) :
    read? (write layout depth value) = some value := by
  have noRest : Follows [] := by simp [Follows]
  have cuts := tokens?_write spaces depth value noRest
  have reads := Reading.run?_tokens value [] []
  rw [List.append_nil] at cuts reads
  simp only [read?, cuts, tokens?, Option.map_some, List.append_nil, Reading.start, reads,
    Reading.run?, Reading.finish?]

end Json

end Flowmark
