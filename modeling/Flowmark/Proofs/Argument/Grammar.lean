import Flowmark.Proofs.Argument.Pattern
import Mathlib.Computability.Language

namespace Flowmark

open Text
open scoped Computability

/-!
# The patterns of arguments as languages

Each kind of argument is a regular language, written here as its regular expression.  What the
search for a kind finds is in the language of that kind.  A string in quotes is found wherever a
text starts with it, and a number is found where it is the whole text.
-/

/-! ## Languages of single characters -/

namespace Text

/-- The texts of one character that passes a test. -/
def oneOf
    (test : Char → Bool) :
    Language Char :=
  {text | ∃ c, test c = true ∧ text = [c]}

/-- The text of one given character. -/
def just
    (c : Char) :
    Language Char :=
  {[c]}

variable {c : Char} {test : Char → Bool} {front back : Language Char} {text : List Char}

/-- The words of one character that passes a test. -/
theorem mem_oneOf :
    text ∈ oneOf test ↔ ∃ c, test c = true ∧ text = [c] :=
  Iff.rfl

/-- A character followed by a language stands at the head of a text. -/
theorem mem_just_mul :
    text ∈ just c * back ↔ ∃ rest ∈ back, text = c :: rest := by
  rw [Language.mem_mul]
  constructor
  · rintro ⟨_, rfl, rest, inRest, rfl⟩
    exact ⟨rest, inRest, rfl⟩
  · rintro ⟨rest, inRest, rfl⟩
    exact ⟨[c], rfl, rest, inRest, rfl⟩

/-- A character that passes a test, followed by a language. -/
theorem mem_oneOf_mul :
    text ∈ oneOf test * back ↔ ∃ c rest, test c = true ∧ rest ∈ back ∧ text = c :: rest := by
  rw [Language.mem_mul]
  constructor
  · rintro ⟨_, ⟨c, passes, rfl⟩, rest, inRest, rfl⟩
    exact ⟨c, rest, passes, inRest, rfl⟩
  · rintro ⟨c, rest, passes, inRest, rfl⟩
    exact ⟨[c], ⟨c, passes, rfl⟩, rest, inRest, rfl⟩

/-- A repeated test asks every character of the text. -/
theorem mem_kstar_oneOf :
    text ∈ (oneOf test)∗ ↔ ∀ c ∈ text, test c = true := by
  rw [Language.mem_kstar]
  constructor
  · rintro ⟨pieces, rfl, arePieces⟩ c member
    obtain ⟨piece, isPiece, inPiece⟩ := List.mem_flatten.mp member
    obtain ⟨d, passes, rfl⟩ := arePieces piece isPiece
    rwa [List.mem_singleton.mp inPiece]
  · intro pass
    refine ⟨text.map fun c => [c], (List.flatMap_singleton' text).symm, ?_⟩
    intro piece isPiece
    obtain ⟨c, member, rfl⟩ := List.mem_map.mp isPiece
    exact ⟨c, pass c member, rfl⟩

/-- A test passed at least once asks every character of a text that is not empty. -/
theorem mem_oneOf_plus :
    text ∈ oneOf test * (oneOf test)∗ ↔ text ≠ [] ∧ ∀ c ∈ text, test c = true := by
  rw [mem_oneOf_mul]
  constructor
  · rintro ⟨c, rest, passes, inRest, rfl⟩
    refine ⟨List.cons_ne_nil c rest, ?_⟩
    simpa [passes] using mem_kstar_oneOf.mp inRest
  · rintro ⟨nonempty, pass⟩
    obtain ⟨c, rest, rfl⟩ := List.exists_cons_of_ne_nil nonempty
    rw [List.forall_mem_cons] at pass
    exact ⟨c, rest, pass.1, mem_kstar_oneOf.mpr pass.2, rfl⟩

/-- One more piece may stand in front of a repetition. -/
theorem append_mem_kstar_mul
    {piece : List Char}
    (isPiece : piece ∈ front)
    (member : text ∈ front∗ * back) :
    piece ++ text ∈ front∗ * back := by
  have inProduct : piece ++ text ∈ front * front∗ * back := by
    rw [mul_assoc]
    exact Language.append_mem_mul isPiece member
  exact mul_le_mul_left mul_kstar_le_kstar back inProduct

end Text

namespace Argument

namespace Pattern

/-- One or more digits. -/
def digits : Language Char :=
  oneOf Char.isDigit * (oneOf Char.isDigit)∗

/-- A sign, which may be left out. -/
def sign : Language Char :=
  1 + oneOf fun c => c == '+' || c == '-'

/-- Digits with a point before, among or after them. -/
def decimal : Language Char :=
  digits * (1 + just '.' * (oneOf Char.isDigit)∗) + just '.' * digits

/-- An exponent, which may be left out. -/
def exponent : Language Char :=
  1 + oneOf (fun c => c == 'e' || c == 'E') * (sign * digits)

/-- What stands for one character in double quotes: a character or a backslash and another one. -/
def unit : Language Char :=
  oneOf (fun c => c != '"' && c != '\\') + just '\\' * oneOf (· != '\n')

/-- The rest of a string in double quotes behind its opening quote. -/
def doubleQuotedRest : Language Char :=
  unit∗ * just '"'

/-- The rest of a string in single quotes behind its opening quote. -/
def singleQuotedRest : Language Char :=
  (oneOf (· != '\''))∗ * just '\''

end Pattern

/-- The texts that match the pattern of a kind. -/
def Kind.pattern : Kind → Language Char
  | .doubleQuoted => just '"' * Pattern.doubleQuotedRest
  | .singleQuoted => just '\'' * Pattern.singleQuotedRest
  | .number => Pattern.sign * (Pattern.decimal * Pattern.exponent)
  | .word => oneOf (!isBlank ·) * (oneOf (!isBlank ·))∗

/-- A text is a word as a whole when it is not empty and has no blank. -/
theorem mem_pattern_word
    {text : List Char} :
    text ∈ Kind.word.pattern ↔ text ≠ [] ∧ Solid text := by
  simp [Kind.pattern, mem_oneOf_plus, Solid]

/-! ## Strings -/

/-- The rests of strings that a search for the closing quote finds whatever stands behind them. -/
def foundBy
    (close? : List Char → Option (List Char)) :
    Language Char :=
  {inner | ∀ after, close? (inner ++ after) = some inner}

/-- What the search for a closing double quote gives is the rest of a double-quoted text. -/
theorem mem_doubleQuotedRest_of_close
    {text inner : List Char}
    (closed : closeDoubleQuote? text = some inner) :
    inner ∈ Pattern.doubleQuotedRest := by
  fun_induction closeDoubleQuote? text generalizing inner with
  | case1 => cases closed
  | case2 rest =>
      cases closed
      exact Language.append_mem_mul (Language.nil_mem_kstar _) rfl
  | case3 rest => cases closed
  | case4 c rest notFeed inductionHypothesis =>
      obtain ⟨found, foundCloses, rfl⟩ := Option.map_eq_some_iff.mp closed
      have escaped : ['\\', c] ∈ Pattern.unit :=
        Or.inr (mem_just_mul.mpr ⟨[c], ⟨c, by simpa using notFeed, rfl⟩, rfl⟩)
      exact append_mem_kstar_mul escaped (inductionHypothesis foundCloses)
  | case5 rest notEscape => cases closed
  | case6 c rest notQuote notEscape notBackslash inductionHypothesis =>
      obtain ⟨found, foundCloses, rfl⟩ := Option.map_eq_some_iff.mp closed
      have plain : [c] ∈ Pattern.unit :=
        Or.inl ⟨c, by simpa [notBackslash] using fun same => notQuote same, rfl⟩
      exact append_mem_kstar_mul plain (inductionHypothesis foundCloses)

/-- The search finds every rest of a double-quoted text, whatever stands behind it. -/
theorem mem_foundBy_of_doubleQuotedRest
    {inner : List Char}
    (isRest : inner ∈ Pattern.doubleQuotedRest) :
    inner ∈ foundBy closeDoubleQuote? := by
  have ends : just '"' ≤ foundBy closeDoubleQuote? := by
    rintro _ rfl after
    rfl
  have goesOn : Pattern.unit * foundBy closeDoubleQuote? ≤ foundBy closeDoubleQuote? := by
    intro _ inProduct after
    obtain ⟨piece, isUnit, rest, closes, rfl⟩ := Language.mem_mul.mp inProduct
    rcases isUnit with ⟨c, plain, rfl⟩ | isEscape
    · have notQuote : c ≠ '"' ∧ c ≠ '\\' := by simpa using plain
      simp [closeDoubleQuote?, notQuote, closes after]
    · obtain ⟨_, ⟨d, notFeed, rfl⟩, rfl⟩ := mem_just_mul.mp isEscape
      have feed : d ≠ '\n' := by simpa using notFeed
      simp [closeDoubleQuote?, feed, closes after]
  exact kstar_mul_le ends goesOn isRest

/-- What is read as a double-quoted argument matches the pattern of its kind. -/
theorem mem_pattern_of_doubleQuoted?
    {text : List Char}
    {argument : Argument}
    (found : doubleQuoted? text = some argument) :
    argument.kind = .doubleQuoted ∧ argument.text ∈ Kind.doubleQuoted.pattern := by
  obtain ⟨rest, inner, _, closed, rfl⟩ := shape_of_doubleQuoted? found
  exact ⟨rfl, mem_just_mul.mpr ⟨inner, mem_doubleQuotedRest_of_close closed, rfl⟩⟩

/-- A text of the double-quoted pattern is read up to its end and no further. -/
theorem doubleQuoted?_append_of_mem
    {text : List Char}
    (isString : text ∈ Kind.doubleQuoted.pattern)
    (after : List Char) :
    doubleQuoted? (text ++ after) = some ⟨.doubleQuoted, text⟩ := by
  obtain ⟨inner, isRest, rfl⟩ := mem_just_mul.mp isString
  simp [doubleQuoted?, mem_foundBy_of_doubleQuotedRest isRest after]

/-- What the search for a closing single quote gives is the rest of a single-quoted text. -/
theorem mem_singleQuotedRest_of_close
    {text inner : List Char}
    (closed : closeSingleQuote? text = some inner) :
    inner ∈ Pattern.singleQuotedRest := by
  induction text generalizing inner with
  | nil => cases closed
  | cons c rest inductionHypothesis =>
      unfold closeSingleQuote? at closed
      split at closed
      · cases closed
        exact Language.append_mem_mul (Language.nil_mem_kstar _) rfl
      · rename_i notQuote
        obtain ⟨found, foundCloses, rfl⟩ := Option.map_eq_some_iff.mp closed
        have plain : [c] ∈ oneOf (· != '\'') := ⟨c, by simpa using notQuote, rfl⟩
        exact append_mem_kstar_mul plain (inductionHypothesis foundCloses)

/-- The search finds every rest of a single-quoted text, whatever stands behind it. -/
theorem mem_foundBy_of_singleQuotedRest
    {inner : List Char}
    (isRest : inner ∈ Pattern.singleQuotedRest) :
    inner ∈ foundBy closeSingleQuote? := by
  have ends : just '\'' ≤ foundBy closeSingleQuote? := by
    rintro _ rfl after
    rfl
  have goesOn : oneOf (· != '\'') * foundBy closeSingleQuote? ≤ foundBy closeSingleQuote? := by
    intro _ inProduct after
    obtain ⟨c, rest, plain, closes, rfl⟩ := mem_oneOf_mul.mp inProduct
    have notQuote : c ≠ '\'' := by simpa using plain
    simp [closeSingleQuote?, notQuote, closes after]
  exact kstar_mul_le ends goesOn isRest

/-- What is read as a single-quoted argument matches the pattern of its kind. -/
theorem mem_pattern_of_singleQuoted?
    {text : List Char}
    {argument : Argument}
    (found : singleQuoted? text = some argument) :
    argument.kind = .singleQuoted ∧ argument.text ∈ Kind.singleQuoted.pattern := by
  obtain ⟨rest, inner, _, closed, rfl⟩ := shape_of_singleQuoted? found
  exact ⟨rfl, mem_just_mul.mpr ⟨inner, mem_singleQuotedRest_of_close closed, rfl⟩⟩

/-- A text of the single-quoted pattern is read up to its end and no further. -/
theorem singleQuoted?_append_of_mem
    {text : List Char}
    (isString : text ∈ Kind.singleQuoted.pattern)
    (after : List Char) :
    singleQuoted? (text ++ after) = some ⟨.singleQuoted, text⟩ := by
  obtain ⟨inner, isRest, rfl⟩ := mem_just_mul.mp isString
  simp [singleQuoted?, mem_foundBy_of_singleQuotedRest isRest after]

/-! ## Numbers -/

/-- Digits are one decimal digit or more. -/
theorem mem_digits
    {text : List Char} :
    text ∈ Pattern.digits ↔ text ≠ [] ∧ ∀ c ∈ text, c.isDigit = true :=
  mem_oneOf_plus

/-- A sign is a plus, a minus or nothing. -/
theorem mem_sign
    {text : List Char} :
    text ∈ Pattern.sign ↔ text = [] ∨ text = ['+'] ∨ text = ['-'] := by
  simp only [Pattern.sign, Language.mem_add, Language.mem_one, mem_oneOf, Bool.or_eq_true,
    beq_iff_eq, or_and_right, exists_or, exists_eq_left]

/-- Digits alone, digits with a point behind them and perhaps more digits, or a point first. -/
theorem mem_decimal
    {text : List Char} :
    text ∈ Pattern.decimal ↔
      text ∈ Pattern.digits ∨
        (∃ whole fraction,
          whole ∈ Pattern.digits ∧
            (∀ c ∈ fraction, c.isDigit = true) ∧ text = whole ++ '.' :: fraction) ∨
          ∃ fraction, fraction ∈ Pattern.digits ∧ text = '.' :: fraction := by
  rw [Pattern.decimal, mul_add, mul_one, Language.mem_add, Language.mem_add, or_assoc,
    mem_just_mul, Language.mem_mul]
  simp only [mem_just_mul, mem_kstar_oneOf]
  constructor
  · rintro (isWhole | ⟨whole, isWhole, _, ⟨fraction, areDigits, rfl⟩, rfl⟩ | isFraction)
    · exact Or.inl isWhole
    · exact Or.inr (Or.inl ⟨whole, fraction, isWhole, areDigits, rfl⟩)
    · exact Or.inr (Or.inr isFraction)
  · rintro (isWhole | ⟨whole, fraction, isWhole, areDigits, rfl⟩ | isFraction)
    · exact Or.inl isWhole
    · exact Or.inr (Or.inl ⟨whole, isWhole, _, ⟨fraction, areDigits, rfl⟩, rfl⟩)
    · exact Or.inr (Or.inr isFraction)

/-- An exponent is nothing, or a letter `e` with an optional sign and digits. -/
theorem mem_exponent
    {text : List Char} :
    text ∈ Pattern.exponent ↔
      text = [] ∨
        ∃ letter sign digits,
          (letter = 'e' ∨ letter = 'E') ∧
            sign ∈ Pattern.sign ∧ digits ∈ Pattern.digits ∧ text = letter :: (sign ++ digits) := by
  rw [Pattern.exponent, Language.mem_add, Language.mem_one, mem_oneOf_mul]
  simp only [Language.mem_mul, Bool.or_eq_true, beq_iff_eq]
  constructor
  · rintro (rfl | ⟨letter, _, isLetter, ⟨sign, isSign, digits, areDigits, rfl⟩, rfl⟩)
    · exact Or.inl rfl
    · exact Or.inr ⟨letter, sign, digits, isLetter, isSign, areDigits, rfl⟩
  · rintro (rfl | ⟨letter, sign, digits, isLetter, isSign, areDigits, rfl⟩)
    · exact Or.inl rfl
    · exact Or.inr ⟨letter, _, isLetter, ⟨sign, isSign, digits, areDigits, rfl⟩, rfl⟩

/-- What is split off as a sign is one. -/
theorem mem_sign_of_splitSign
    (text : List Char) :
    (splitSign text).1 ∈ Pattern.sign := by
  rw [mem_sign]
  unfold splitSign
  split
  · exact Or.inr (Or.inl rfl)
  · exact Or.inr (Or.inr rfl)
  · exact Or.inl rfl

/-- Only digits are split off as digits. -/
theorem isDigit_of_splitDigits
    {text digits after : List Char}
    (split : splitDigits text = (digits, after)) :
    ∀ c ∈ digits, c.isDigit = true := by
  intro c member
  have taken : digits = text.takeWhile Char.isDigit := (congrArg Prod.fst split).symm
  rw [taken] at member
  exact List.mem_takeWhile_imp member

/-- What is split off as a decimal matches the pattern of decimals. -/
theorem mem_decimal_of_splitDecimal?
    {text decimal after : List Char}
    (split : splitDecimal? text = some (decimal, after)) :
    decimal ∈ Pattern.decimal := by
  rw [mem_decimal]
  unfold splitDecimal? at split
  split at split
  · split at split
    · cases split
    · rename_i fraction _ nonempty shape
      cases split
      exact Or.inr (Or.inr
        ⟨fraction, mem_digits.mpr ⟨nonempty, isDigit_of_splitDigits shape⟩, rfl⟩)
  · cases split
  · rename_i whole rest nonempty shape
    cases split
    exact Or.inr (Or.inl
      ⟨whole, _, mem_digits.mpr ⟨nonempty, isDigit_of_splitDigits shape⟩,
        isDigit_of_splitDigits rfl, rfl⟩)
  · cases split
    rename_i nonempty _ _ shape
    exact Or.inl (mem_digits.mpr ⟨nonempty, isDigit_of_splitDigits shape⟩)

/-- What is split off as an exponent matches the pattern of exponents. -/
theorem mem_exponent_of_exponent
    (text : List Char) :
    exponent text ∈ Pattern.exponent := by
  rw [mem_exponent]
  cases text with
  | nil => exact Or.inl rfl
  | cons letter rest =>
      by_cases isLetter : letter = 'e' ∨ letter = 'E'
      · simp only [exponent, isLetter, if_true]
        split
        · exact Or.inl rfl
        · rename_i digits after nonempty shape
          exact Or.inr ⟨letter, _, digits, isLetter, mem_sign_of_splitSign rest,
            mem_digits.mpr ⟨nonempty, isDigit_of_splitDigits shape⟩, rfl⟩
      · exact Or.inl (by simp only [exponent, isLetter, if_false])

/-- A sign is split off as a whole where no second sign follows. -/
theorem splitSign_append_of_mem
    {sign rest : List Char}
    (isSign : sign ∈ Pattern.sign)
    (unsigned : ∀ c ∈ rest.head?, c ≠ '+' ∧ c ≠ '-') :
    splitSign (sign ++ rest) = (sign, rest) := by
  rcases mem_sign.mp isSign with rfl | rfl | rfl
  · cases rest with
    | nil => rfl
    | cons c rest => simp [splitSign, unsigned c rfl]
  · rfl
  · rfl

/-- A decimal is split off as a whole where neither a digit nor a point follows. -/
theorem splitDecimal?_append_of_mem
    {decimal rest : List Char}
    (isDecimal : decimal ∈ Pattern.decimal)
    (stops : ∀ c ∈ rest.head?, c.isDigit = false ∧ c ≠ '.') :
    splitDecimal? (decimal ++ rest) = some (decimal, rest) := by
  have noDigit : ∀ c ∈ rest.head?, c.isDigit = false := fun c isHead => (stops c isHead).1
  unfold splitDecimal?
  rcases mem_decimal.mp isDecimal with
    isWhole | ⟨whole, fraction, isWhole, areDigits, rfl⟩ | ⟨fraction, isFraction, rfl⟩
  · obtain ⟨nonempty, areDigits⟩ := mem_digits.mp isWhole
    rw [splitDigits_append_of_digits areDigits noDigit]
    obtain ⟨digit, digits, rfl⟩ := List.exists_cons_of_ne_nil nonempty
    cases rest with
    | nil => rfl
    | cons c rest => simp [(stops c rfl).2]
  · obtain ⟨nonempty, areWhole⟩ := mem_digits.mp isWhole
    rw [List.append_assoc, splitDigits_append_of_digits areWhole (by simp)]
    simp [splitDigits_append_of_digits areDigits noDigit]
  · obtain ⟨nonempty, areDigits⟩ := mem_digits.mp isFraction
    have noWhole : splitDigits ('.' :: fraction ++ rest) = ([], '.' :: (fraction ++ rest)) := rfl
    rw [noWhole]
    simp [splitDigits_append_of_digits areDigits noDigit]

/-- No digit is a sign. -/
theorem ne_sign_of_isDigit
    {c : Char}
    (digit : c.isDigit = true) :
    c ≠ '+' ∧ c ≠ '-' := by
  constructor
  · rintro rfl
    cases digit
  · rintro rfl
    cases digit

/-- A text that starts with digits starts with no sign. -/
theorem unsigned_of_mem_digits
    {digits : List Char}
    (areDigits : digits ∈ Pattern.digits)
    (rest : List Char) :
    ∀ c ∈ (digits ++ rest).head?, c ≠ '+' ∧ c ≠ '-' := by
  obtain ⟨nonempty, areDigits⟩ := mem_digits.mp areDigits
  obtain ⟨digit, digits, rfl⟩ := List.exists_cons_of_ne_nil nonempty
  simpa using ne_sign_of_isDigit (areDigits digit (by simp))

/-- A text that starts with a decimal starts with no sign. -/
theorem unsigned_of_mem_decimal
    {decimal : List Char}
    (isDecimal : decimal ∈ Pattern.decimal)
    (rest : List Char) :
    ∀ c ∈ (decimal ++ rest).head?, c ≠ '+' ∧ c ≠ '-' := by
  rcases mem_decimal.mp isDecimal with
    isWhole | ⟨whole, fraction, isWhole, _, rfl⟩ | ⟨fraction, _, rfl⟩
  · exact unsigned_of_mem_digits isWhole rest
  · rw [List.append_assoc]
    exact unsigned_of_mem_digits isWhole _
  · simp

/-- A text of the exponent pattern is split off as a whole. -/
theorem exponent_of_mem
    {text : List Char}
    (isExponent : text ∈ Pattern.exponent) :
    exponent text = text := by
  rcases mem_exponent.mp isExponent with
    rfl | ⟨letter, sign, digits, isLetter, isSign, isDigits, rfl⟩
  · rfl
  · obtain ⟨_, areDigits⟩ := mem_digits.mp isDigits
    have unsigned := unsigned_of_mem_digits isDigits []
    have split : splitDigits (digits ++ []) = (digits, []) :=
      splitDigits_append_of_digits areDigits (by simp)
    rw [List.append_nil] at unsigned split
    simp only [exponent, isLetter, if_true, splitSign_append_of_mem isSign unsigned, split,
      List.cons_append]

/-- An exponent starts with neither a digit nor a point, so a decimal stops before it. -/
theorem stops_of_mem_exponent
    {text : List Char}
    (isExponent : text ∈ Pattern.exponent) :
    ∀ c ∈ text.head?, c.isDigit = false ∧ c ≠ '.' := by
  rcases mem_exponent.mp isExponent with
    rfl | ⟨letter, sign, digits, isLetter, _, _, rfl⟩
  · simp
  · rcases isLetter with rfl | rfl <;> simp

/-- What is read as a number matches the pattern of its kind. -/
theorem mem_pattern_of_number?
    {text : List Char}
    {argument : Argument}
    (found : number? text = some argument) :
    argument.kind = .number ∧ argument.text ∈ Kind.number.pattern := by
  simp only [number?, Option.map_eq_some_iff, Prod.exists] at found
  obtain ⟨decimal, after, split, rfl⟩ := found
  refine ⟨rfl, ?_⟩
  rw [List.append_assoc]
  exact Language.append_mem_mul (mem_sign_of_splitSign text)
    (Language.append_mem_mul (mem_decimal_of_splitDecimal? split) (mem_exponent_of_exponent after))

/-- A text that is a number as a whole is found as a whole. -/
theorem number?_of_mem_pattern
    {text : List Char}
    (isNumber : text ∈ Kind.number.pattern) :
    number? text = some ⟨.number, text⟩ := by
  obtain ⟨sign, isSign, _, ⟨decimal, isDecimal, after, isExponent, rfl⟩, rfl⟩ :=
    Language.mem_mul.mp isNumber
  have signed : splitSign (sign ++ (decimal ++ after)) = (sign, decimal ++ after) :=
    splitSign_append_of_mem isSign (unsigned_of_mem_decimal isDecimal after)
  have split : splitDecimal? (decimal ++ after) = some (decimal, after) :=
    splitDecimal?_append_of_mem isDecimal (stops_of_mem_exponent isExponent)
  simp only [number?, signed, split, Option.map_some, exponent_of_mem isExponent,
    List.append_assoc]

end Argument

end Flowmark
