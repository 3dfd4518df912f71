import Flowmark.Proofs.Json.Spelling
import Mathlib.Data.List.Chain

namespace Flowmark

/-!
# The grammar of JSON texts

A text spells tokens one after another, with any space before, between and behind them.  A text is
read as a value exactly where it spells the tokens of the value.
-/

namespace Json

/-! ## Tokens -/

/-- How a token is spelled. -/
inductive SpellsToken : List Char → Token → Prop where
  | openArray :
      SpellsToken ['['] .openArray
  | closeArray :
      SpellsToken [']'] .closeArray
  | openObject :
      SpellsToken ['\x7b'] .openObject
  | closeObject :
      SpellsToken ['\x7d'] .closeObject
  | colon :
      SpellsToken [':'] .colon
  | comma :
      SpellsToken [','] .comma
  | null :
      SpellsToken ['n', 'u', 'l', 'l'] (.scalar .null)
  | isTrue :
      SpellsToken ['t', 'r', 'u', 'e'] (.scalar (.bool true))
  | isFalse :
      SpellsToken ['f', 'a', 'l', 's', 'e'] (.scalar (.bool false))
  | string
      {text : List Char}
      {content : Option String}
      (isLiteral : SpellsLiteral text content) :
      SpellsToken text (.string content)
  | number
      {text : List Char}
      {mantissa exponent : Int}
      (isNumber : SpellsNumber text mantissa exponent) :
      SpellsToken text (.scalar (.number mantissa exponent))

/-- A text is space and spelled tokens in turn. -/
inductive Spells : List Char → List Token → Prop where
  | nil
      {space : List Char}
      (areSpaces : ∀ c ∈ space, isSpace c = true) :
      Spells space []
  | cons
      {space spelling text : List Char}
      {token : Token}
      {tokens : List Token}
      (areSpaces : ∀ c ∈ space, isSpace c = true)
      (first : SpellsToken spelling token)
      (others : Spells text tokens) :
      Spells (space ++ (spelling ++ text)) (token :: tokens)

/-- Whether a token is a number. -/
def Token.isNumber : Token → Bool
  | .scalar (.number _ _) => true
  | _ => false

/-- No number stands directly behind another one. -/
def Separated
    (tokens : List Token) :
    Prop :=
  tokens.IsChain fun token next => ¬ (token.isNumber = true ∧ next.isNumber = true)

/-- No token starts with space, and only a number starts with what continues a number. -/
theorem SpellsToken.exists_cons
    {spelling : List Char}
    {token : Token}
    (spelled : SpellsToken spelling token) :
    ∃ c rest,
      spelling = c :: rest ∧
        isSpace c = false ∧
        (token.isNumber = false → c.isDigit = false ∧ c ≠ '.' ∧ c ≠ 'e' ∧ c ≠ 'E') := by
  cases spelled
  case string isLiteral =>
    cases isLiteral with
    | text => exact ⟨_, _, rfl, by decide, fun _ => by decide⟩
    | noText => exact ⟨_, _, rfl, by decide, fun _ => by decide⟩
  case number isNumber =>
    cases isNumber with
    | unsigned isSize =>
        obtain ⟨areDigits, _, _, _⟩ := isSize
        obtain ⟨digit, digits, rfl⟩ := List.exists_cons_of_ne_nil areDigits.1
        refine ⟨digit, _, rfl, not_isSpace_of_isDigit (Or.inl (areDigits.2 digit (by simp))), ?_⟩
        exact fun noNumber => Bool.noConfusion noNumber
    | negative => exact ⟨_, _, rfl, by decide, fun noNumber => Bool.noConfusion noNumber⟩
  all_goals exact ⟨_, _, rfl, by decide, fun _ => by decide⟩

/-- Where no number follows, nothing that follows continues a number. -/
theorem Spells.endsNumeral
    {text : List Char}
    {tokens : List Token}
    (spells : Spells text tokens)
    (noNumber : ∀ token ∈ tokens.head?, token.isNumber = false) :
    EndsNumeral text := by
  have ofSpace : ∀ {c : Char} {rest : List Char}, isSpace c = true → EndsNumeral (c :: rest) := by
    intro c rest space
    refine Follows.endsNumeral fun d isHead => ?_
    obtain rfl : c = d := by simpa using isHead
    exact Or.inl space
  cases spells with
  | nil areSpaces =>
      cases text with
      | nil => simp [EndsNumeral]
      | cons c text => exact ofSpace (areSpaces c List.mem_cons_self)
  | @cons space spelling text token tokens areSpaces first others =>
      cases space with
      | cons c space => exact ofSpace (areSpaces c List.mem_cons_self)
      | nil =>
          obtain ⟨c, rest, rfl, _, notNumeral⟩ := first.exists_cons
          intro d isHead
          obtain rfl : c = d := by simpa using isHead
          exact notNumeral (noNumber token (by simp))

/-- A spelled token is the first one of its text, unless what follows continues a number. -/
theorem first?_of_spellsToken
    {spelling rest : List Char}
    {token : Token}
    (spelled : SpellsToken spelling token)
    (stops : token.isNumber = true → EndsNumeral rest) :
    Token.first? (spelling ++ rest) = some (token, rest) := by
  cases spelled
  case string isLiteral => exact first?_of_spellsLiteral isLiteral rest
  case number isNumber => exact first?_of_spellsNumber isNumber (stops rfl)
  all_goals rfl

/-- What is cut off as the first token spells it. -/
theorem spellsToken_of_first?
    {text after : List Char}
    {token : Token}
    (read : Token.first? text = some (token, after)) :
    ∃ spelling, text = spelling ++ after ∧ SpellsToken spelling token := by
  unfold Token.first? at read
  split at read
  case h_7 rest =>
    simp only [Option.map_eq_some_iff, Prod.exists, Prod.mk.injEq] at read
    obtain ⟨codes, _, isLiteral, rfl, rfl⟩ := read
    obtain ⟨spelling, shape, spelled⟩ := spellsLiteral_of_literalCodes? isLiteral
    exact ⟨spelling, shape, .string spelled⟩
  case h_11 =>
    obtain ⟨spelling, mantissa, exponent, rfl, isNumber, rfl⟩ := spells_of_number? read
    exact ⟨spelling, rfl, .number isNumber⟩
  all_goals cases read
  · exact ⟨['['], rfl, .openArray⟩
  · exact ⟨[']'], rfl, .closeArray⟩
  · exact ⟨['\x7b'], rfl, .openObject⟩
  · exact ⟨['\x7d'], rfl, .closeObject⟩
  · exact ⟨[':'], rfl, .colon⟩
  · exact ⟨[','], rfl, .comma⟩
  · exact ⟨['n', 'u', 'l', 'l'], rfl, .null⟩
  · exact ⟨['t', 'r', 'u', 'e'], rfl, .isTrue⟩
  · exact ⟨['f', 'a', 'l', 's', 'e'], rfl, .isFalse⟩

/-- A text is cut into the tokens that it spells. -/
theorem tokens?_of_spells
    {text : List Char}
    {tokens : List Token}
    (spells : Spells text tokens)
    (separated : Separated tokens) :
    tokens? text = some tokens := by
  induction spells with
  | nil areSpaces =>
      have cut := tokens?_space areSpaces []
      rw [List.append_nil] at cut
      rw [cut, tokens?]
  | @cons space spelling text token tokens areSpaces first others inductionHypothesis =>
      obtain ⟨notNext, restSeparated⟩ := List.isChain_cons.mp separated
      have stops : token.isNumber = true → EndsNumeral text := by
        intro isNumber
        refine others.endsNumeral fun next isNext => ?_
        rw [← Bool.not_eq_true]
        exact fun nextIsNumber => notNext next isNext ⟨isNumber, nextIsNumber⟩
      have opens : ∀ c ∈ (spelling ++ text).head?, isSpace c = false := by
        obtain ⟨c, rest, rfl, notSpace, _⟩ := first.exists_cons
        simpa using notSpace
      rw [tokens?_space areSpaces, tokens?_of_first? opens (first?_of_spellsToken first stops),
        inductionHypothesis restSeparated, Option.map_some]

/-- A text spells the tokens into which it is cut. -/
theorem spells_of_tokens?
    {text : List Char}
    {tokens : List Token}
    (cut : tokens? text = some tokens) :
    Spells text tokens := by
  fun_induction tokens? text generalizing tokens with
  | case1 =>
      cases cut
      exact .nil (by simp)
  | case2 c rest space inductionHypothesis =>
      cases inductionHypothesis cut with
      | nil areSpaces => exact .nil (List.forall_mem_cons.mpr ⟨space, areSpaces⟩)
      | cons areSpaces first others =>
          rw [← List.cons_append]
          exact .cons (List.forall_mem_cons.mpr ⟨space, areSpaces⟩) first others
  | case3 => cases cut
  | case4 c rest notSpace token after isFirst inductionHypothesis =>
      obtain ⟨others, isRest, rfl⟩ := Option.map_eq_some_iff.mp cut
      obtain ⟨spelling, shape, spelled⟩ := spellsToken_of_first? isFirst
      rw [shape]
      exact @Spells.cons [] spelling after token others (by simp) spelled
        (inductionHypothesis isRest)

/-! ## The tokens of a value stand apart -/

/-- A token that is no number may stand in front. -/
theorem Separated.cons
    {token : Token}
    {tokens : List Token}
    (noNumber : token.isNumber = false)
    (separated : Separated tokens) :
    Separated (token :: tokens) :=
  List.isChain_cons.mpr ⟨fun _ _ both => Bool.noConfusion (noNumber.symm.trans both.1), separated⟩

/-- A token that is no number keeps what stands on both sides of it apart. -/
theorem Separated.append
    {tokens : List Token}
    {token : Token}
    {others : List Token}
    (first : Separated tokens)
    (noNumber : token.isNumber = false)
    (second : Separated (token :: others)) :
    Separated (tokens ++ token :: others) := by
  refine List.isChain_append.mpr ⟨first, second, fun _ _ next isHead both => ?_⟩
  obtain rfl : token = next := by simpa using isHead
  exact Bool.noConfusion (noNumber.symm.trans both.2)

mutual

/-- In the tokens of a value no number stands directly behind another one. -/
theorem separated_tokens
    (value : Json) :
    Separated value.tokens := by
  cases value with
  | null => exact List.isChain_singleton _
  | bool value => exact List.isChain_singleton _
  | number mantissa exponent => exact List.isChain_singleton _
  | string content => exact List.isChain_singleton _
  | array items =>
      cases items with
      | nil => exact .cons rfl (List.isChain_singleton _)
      | cons item items =>
          rw [tokens, List.append_assoc]
          exact .cons rfl (separated_itemTokens items (separated_tokens item) rfl)
  | object fields =>
      cases fields with
      | nil => exact .cons rfl (List.isChain_singleton _)
      | cons field fields =>
          rw [tokens, List.append_assoc]
          exact .cons rfl (separated_fieldsTokens fields (separated_fieldTokens field) rfl)

/-- Further items and the end of the array stand apart from the tokens before them. -/
theorem separated_itemTokens
    (items : List Json)
    {before : List Token}
    {token : Token}
    (separated : Separated before)
    (noNumber : token.isNumber = false) :
    Separated (before ++ (itemTokens items ++ [token])) := by
  cases items with
  | nil => exact separated.append noNumber (List.isChain_singleton _)
  | cons item items =>
      rw [itemTokens, List.cons_append, List.append_assoc]
      exact separated.append rfl
        (.cons rfl (separated_itemTokens items (separated_tokens item) noNumber))

/-- In the tokens of a field no number stands directly behind another one. -/
theorem separated_fieldTokens
    (field : Option String × Json) :
    Separated (fieldTokens field) := by
  rcases field with ⟨name, value⟩
  exact .cons rfl (.cons rfl (separated_tokens value))

/-- Further fields and the end of the object stand apart from the tokens before them. -/
theorem separated_fieldsTokens
    (fields : List (Option String × Json))
    {before : List Token}
    {token : Token}
    (separated : Separated before)
    (noNumber : token.isNumber = false) :
    Separated (before ++ (fieldsTokens fields ++ [token])) := by
  cases fields with
  | nil => exact separated.append noNumber (List.isChain_singleton _)
  | cons field fields =>
      rw [fieldsTokens, List.cons_append, List.append_assoc]
      exact separated.append rfl
        (.cons rfl (separated_fieldsTokens fields (separated_fieldTokens field) noNumber))

end

/-! ## What has been read -/

/-- The tokens of an open array or object up to the value that is read in it. -/
def Container.tokens : Container → List Token
  | .array items => .openArray :: items.flatMap fun item => item.tokens ++ [.comma]
  | .object fields name =>
      .openObject :: (fields.flatMap (fun field => fieldTokens field ++ [.comma]) ++
        [.string name, .colon])

/-- The tokens of what is read at the moment. -/
def Expectation.tokens : Expectation → List Token
  | .value => []
  | .firstItem => [.openArray]
  | .firstName => [.openObject]
  | .name fields => .openObject :: fields.flatMap fun field => fieldTokens field ++ [.comma]
  | .colon fields next =>
      .openObject :: (fields.flatMap (fun field => fieldTokens field ++ [.comma]) ++
        [.string next])
  | .after whole => whole.tokens

/-- The commas stand before all items but the first, and so behind all items but the last. -/
theorem itemTokens_concat
    (items : List Json)
    (item : Json) :
    itemTokens (items ++ [item]) =
      .comma :: (items.flatMap (fun item => item.tokens ++ [.comma]) ++ item.tokens) := by
  induction items with
  | nil => simp [itemTokens]
  | cons first items inductionHypothesis =>
      simp [itemTokens, inductionHypothesis]

/-- The commas stand before all fields but the first, and so behind all fields but the last. -/
theorem fieldsTokens_concat
    (fields : List (Option String × Json))
    (field : Option String × Json) :
    fieldsTokens (fields ++ [field]) =
      .comma :: (fields.flatMap (fun field => fieldTokens field ++ [.comma]) ++
        fieldTokens field) := by
  induction fields with
  | nil => simp [fieldsTokens]
  | cons first fields inductionHypothesis =>
      simp [fieldsTokens, inductionHypothesis]

/-- The tokens of an array are those of it while open, its last item and the closing bracket. -/
theorem tokens_array_concat
    (items : List Json)
    (item : Json) :
    (array (items ++ [item])).tokens =
      (Container.array items).tokens ++ (item.tokens ++ [.closeArray]) := by
  cases items with
  | nil => simp [tokens, itemTokens, Container.tokens]
  | cons first items => simp [tokens, itemTokens_concat, Container.tokens]

/-- The tokens of an object are those of it while open, its last value and the closing brace. -/
theorem tokens_object_concat
    (fields : List (Option String × Json))
    (name : Option String)
    (value : Json) :
    (object (fields ++ [(name, value)])).tokens =
      (Container.object fields name).tokens ++ (value.tokens ++ [.closeObject]) := by
  cases fields with
  | nil => simp [tokens, fieldsTokens, fieldTokens, Container.tokens]
  | cons first fields =>
      simp [tokens, fieldsTokens_concat, fieldTokens, Container.tokens]

namespace Reading

/-- The tokens that have been read. -/
def tokens
    (reading : Reading) :
    List Token :=
  reading.containers.reverse.flatMap Container.tokens ++ reading.expectation.tokens

/-- A token that begins a value is the only one read of it so far. -/
theorem tokens_of_beginValue?
    {containers : List Container}
    {token : Token}
    {reading : Reading}
    (isWhole : ∀ value, token = .scalar value → value.tokens = [.scalar value])
    (begins : beginValue? containers token = some reading) :
    reading.tokens = containers.reverse.flatMap Container.tokens ++ [token] := by
  cases token <;> cases begins
  case scalar value => simp [tokens, Expectation.tokens, isWhole value rfl]
  all_goals simp [tokens, Expectation.tokens, Json.tokens]

/-- A step reads its token and no other. -/
theorem tokens_of_step?
    {reading next : Reading}
    {token : Token}
    (isWhole : ∀ value, token = .scalar value → value.tokens = [.scalar value])
    (steps : reading.step? token = some next) :
    next.tokens = reading.tokens ++ [token] := by
  unfold step? at steps
  split at steps
  -- A value begins in two states only: where one is due, and at the first item of an array.
  case h_1 containers token =>
    simpa [tokens, Expectation.tokens] using tokens_of_beginValue? isWhole steps
  case h_3 containers token =>
    simpa [tokens, Expectation.tokens, Container.tokens] using
      tokens_of_beginValue? isWhole steps
  all_goals cases steps
  all_goals
    simp [tokens, Expectation.tokens, Container.tokens, Json.tokens, tokens_array_concat,
      tokens_object_concat, fieldTokens]

/-- A run reads all of its tokens, in order. -/
theorem tokens_of_run?
    {reading next : Reading}
    {tokens : List Token}
    (areWhole : ∀ value, .scalar value ∈ tokens → value.tokens = [.scalar value])
    (runs : reading.run? tokens = some next) :
    next.tokens = reading.tokens ++ tokens := by
  -- What has been read grows by each token, from any state on.
  induction tokens generalizing reading with
  | nil =>
      cases runs
      rw [List.append_nil]
  | cons token tokens inductionHypothesis =>
      rw [run?] at runs
      split at runs
      · cases runs
      · rename_i middle steps
        have first := tokens_of_step?
          (fun value isToken => areWhole value (isToken ▸ List.mem_cons_self)) steps
        have others := inductionHypothesis
          (fun value member => areWhole value (List.mem_cons_of_mem _ member)) runs
        rw [others, first, List.append_assoc, List.singleton_append]

end Reading

/-- The numbers and named values that a text spells are values of one token. -/
theorem Spells.tokens_scalar
    {text : List Char}
    {tokens : List Token}
    (spells : Spells text tokens)
    {value : Json}
    (member : .scalar value ∈ tokens) :
    value.tokens = [.scalar value] := by
  induction spells with
  | nil => cases member
  | cons areSpaces first others inductionHypothesis =>
      rcases List.mem_cons.mp member with rfl | member
      · cases first <;> rfl
      · exact inductionHypothesis member

/-- A text is read as a value exactly where it spells the tokens of the value. -/
theorem read?_eq_some_iff
    {text : List Char}
    {value : Json} :
    read? text = some value ↔ Spells text value.tokens := by
  constructor
  · intro read
    unfold read? at read
    split at read
    · cases read
    · rename_i tokens cut
      have spells := spells_of_tokens? cut
      split at read
      · cases read
      · rename_i reading runs
        have isRead := Reading.tokens_of_run? (fun _ => spells.tokens_scalar) runs
        unfold Reading.finish? at read
        split at read
        · cases read
          rwa [show tokens = value.tokens from isRead.symm] at spells
        · cases read
  · intro spells
    have reads := Reading.run?_tokens value [] []
    rw [List.append_nil] at reads
    simp only [read?, tokens?_of_spells spells (separated_tokens value), Reading.start, reads,
      Reading.run?, Reading.finish?]

end Json

end Flowmark
