import Flowmark.Json.Reader
import Flowmark.Json.Writer

namespace Flowmark

open Text

/-!
# Literals and numerals read again

A string literal is read as the content of which it was written, and a numeral as its number.
-/

namespace Json

/-! ## String literals -/

/-- Every control character is escaped by two hexadecimal digits that are its code. -/
theorem hexCode?_hexDigit
    {code : Nat}
    (control : code < 0x20) :
    hexCode? '0' '0' (hexDigit (code / 16)) (hexDigit code) = some code := by
  have all : ∀ code : Fin 0x20,
      hexCode? '0' '0' (hexDigit (code / 16)) (hexDigit code) = some code.val := by decide
  exact all ⟨code, control⟩

/-- A backslash and a letter are read as the code for which the letter stands. -/
theorem literalCodes?_simpleEscape
    {letter c : Char}
    (isEscape : simpleEscape? letter = some c)
    (rest : List Char) :
    literalCodes? ('\\' :: letter :: rest) =
      (literalCodes? rest).map fun (codes, after) => (c.toNat :: codes, after) := by
  have notCode : letter ≠ 'u' := by
    rintro rfl
    cases isEscape
  rw [literalCodes?, isEscape]
  · cases literalCodes? rest <;> rfl
  · exact fun _ _ _ _ _ isCode _ => notCode isCode

/-- A character that needs no escape is read as its code. -/
theorem literalCodes?_plain
    {c : Char}
    (notControl : ¬ c.toNat < 0x20)
    (notQuote : c ≠ '"')
    (notEscape : c ≠ '\\')
    (rest : List Char) :
    literalCodes? (c :: rest) =
      (literalCodes? rest).map fun (codes, after) => (c.toNat :: codes, after) := by
  rw [literalCodes?, if_neg (not_or.mpr ⟨notControl, notEscape⟩)]
  · cases literalCodes? rest <;> rfl
  · exact notQuote
  · exact fun _ _ _ _ _ isEscape _ => notEscape isEscape
  · exact fun _ _ isEscape _ => notEscape isEscape

/-- An escaped character is read as the code of the character. -/
theorem literalCodes?_escape
    (c : Char)
    (rest : List Char) :
    literalCodes? (escape c ++ rest) =
      (literalCodes? rest).map fun (codes, after) => (c.toNat :: codes, after) := by
  unfold escape
  split
  case h_8 notQuote notEscape _ _ _ _ _ =>
    split
    · rename_i control
      simp only [List.cons_append, List.nil_append, literalCodes?, hexCode?_hexDigit control]
      cases literalCodes? rest <;> rfl
    · rename_i notControl
      exact literalCodes?_plain notControl notQuote notEscape rest
  all_goals exact literalCodes?_simpleEscape rfl rest

/-- An escaped text is read as its codes, up to the quote that closes it. -/
theorem literalCodes?_flatMap_escape
    (text rest : List Char) :
    literalCodes? (text.flatMap escape ++ '"' :: rest) = some (text.map Char.toNat, rest) := by
  induction text with
  | nil => simp [literalCodes?]
  | cons c text inductionHypothesis =>
      rw [List.flatMap_cons, List.append_assoc, literalCodes?_escape, inductionHypothesis]
      rfl

/-- The code of a character is no half of a surrogate pair. -/
theorem not_isSurrogate_toNat
    (c : Char) :
    isHighSurrogate c.toNat = false ∧ isLowSurrogate c.toNat = false := by
  have valid : c.toNat < 0xd800 ∨ 0xdfff < c.toNat ∧ c.toNat < 0x110000 := c.valid
  constructor
  · rw [isHighSurrogate, Bool.and_eq_false_iff, decide_eq_false_iff_not, decide_eq_false_iff_not]
    omega
  · rw [isLowSurrogate, Bool.and_eq_false_iff, decide_eq_false_iff_not, decide_eq_false_iff_not]
    omega

/-- The codes of a text are decoded to the text. -/
theorem decodeCodes?_map_toNat
    (text : List Char) :
    decodeCodes? (text.map Char.toNat) = some text := by
  induction text with
  | nil => rfl
  | cons c text inductionHypothesis =>
      obtain ⟨notHigh, notLow⟩ := not_isSurrogate_toNat c
      cases text with
      | nil => simp [decodeCodes?, notHigh, notLow]
      | cons next text =>
          rw [List.map_cons] at inductionHypothesis
          simp [decodeCodes?, notHigh, notLow, inductionHypothesis]

/-- A quote opens a string token. -/
theorem first?_quote
    (rest : List Char) :
    Token.first? ('"' :: rest) =
      (literalCodes? rest).map fun (codes, after) =>
        (.string ((decodeCodes? codes).map String.ofList), after) := by
  rw [Token.first?]

/-- A string literal is one token with its content. -/
theorem first?_literal
    (content : Option String)
    (rest : List Char) :
    Token.first? (literal content ++ rest) = some (.string content, rest) := by
  cases content with
  | none =>
      have shape : literal none = ['"', '\\', 'u', 'd', '8', '0', '0', '"'] := String.toList_ofList
      have isCode : hexCode? 'd' '8' '0' '0' = some 0xd800 := rfl
      have codes : literalCodes? ('\\' :: 'u' :: 'd' :: '8' :: '0' :: '0' :: '"' :: rest) =
          some ([0xd800], rest) := by
        simp only [literalCodes?, isCode]
      rw [shape, List.cons_append, first?_quote]
      simp only [List.cons_append, List.nil_append, codes, Option.map_some]
      rfl
  | some text =>
      have shape : literal (some text) = '"' :: (text.toList.flatMap escape ++ ['"']) := rfl
      have codes := literalCodes?_flatMap_escape text.toList rest
      simp only [shape, List.cons_append, List.append_assoc, List.nil_append, first?_quote, codes,
        Option.map_some, decodeCodes?_map_toNat, String.ofList_toList]

/-! ## Numerals -/

/-- Whether a text does not continue a numeral. -/
def EndsNumeral
    (text : List Char) :
    Prop :=
  ∀ c ∈ text.head?, c.isDigit = false ∧ c ≠ '.' ∧ c ≠ 'e' ∧ c ≠ 'E'

/-- Only zero is written with a leading zero. -/
theorem head?_toDigits
    {n : Nat}
    (positive : 0 < n) :
    (Nat.toDigits 10 n).head? ≠ some '0' := by
  induction n using Nat.strongRecOn with
  | ind n inductionHypothesis =>
      rw [Nat.toDigits_eq_if (by decide)]
      split
      · rename_i small
        have all : ∀ digit : Fin 10, 0 < digit.val → digit.val.digitChar ≠ '0' := by decide
        simpa using all ⟨n, small⟩ positive
      · have leading := inductionHypothesis (n / 10) (by omega) (by omega)
        rwa [List.head?_append, Option.or_of_isSome]
        rw [List.isSome_head?]
        exact Nat.toDigits_ne_nil

/-- The digits of a number are split off up to the first character that is no digit. -/
theorem splitDigits_toDigits
    (n : Nat)
    {rest : List Char}
    (stops : ∀ c ∈ rest.head?, c.isDigit = false) :
    splitDigits (Nat.toDigits 10 n ++ rest) = (Nat.toDigits 10 n, rest) :=
  splitDigits_append_of_digits
    (fun _ member => Nat.isDigit_of_mem_toDigits (by decide) (by decide) member) stops

/-- The digits of a number have no leading zero, so they are read as whole digits. -/
theorem wholeDigits?_toDigits
    (n : Nat)
    {rest : List Char}
    (stops : ∀ c ∈ rest.head?, c.isDigit = false) :
    wholeDigits? (Nat.toDigits 10 n ++ rest) = some (Nat.toDigits 10 n, rest) := by
  rcases Nat.eq_zero_or_pos n with rfl | positive
  · rfl
  · have leading := head?_toDigits positive
    have split := splitDigits_toDigits n stops
    cases shape : Nat.toDigits 10 n with
    | nil => exact absurd shape Nat.toDigits_ne_nil
    | cons digit digits =>
        rw [shape] at leading split
        rw [List.cons_append] at split ⊢
        rw [wholeDigits?, split]
        intro _ isZero
        rw [(List.cons.inj isZero).1] at leading
        exact leading rfl

/-- What follows the whole digits of an integer is not taken for a fraction. -/
theorem fractionDigits?_eq
    {rest : List Char}
    (stops : ∀ c ∈ rest.head?, c ≠ '.') :
    fractionDigits? rest = some ([], rest) := by
  cases rest with
  | nil => rfl
  | cons c rest =>
      rw [fractionDigits?]
      rintro _ isPoint
      exact stops c (by simp) (List.cons.inj isPoint).1

/-- What follows an integer is not taken for an exponent. -/
theorem exponent?_eq_zero
    {rest : List Char}
    (stops : EndsNumeral rest) :
    exponent? rest = some (0, rest) := by
  cases rest with
  | nil => rfl
  | cons c rest =>
      obtain ⟨_, _, notSmall, notLarge⟩ := stops c (by simp)
      rw [exponent?, if_neg (not_or.mpr ⟨notSmall, notLarge⟩)]

/-- The number that an integer writes, with a sign if it is negative. -/
theorem unsigned?_toDigits
    (negative : Bool)
    (n : Nat)
    {rest after : List Char}
    {exponent : Int}
    (stops : ∀ c ∈ rest.head?, c.isDigit = false ∧ c ≠ '.')
    (isExponent : exponent? rest = some (exponent, after)) :
    unsigned? negative (Nat.toDigits 10 n ++ rest) =
      some (.scalar (.number (if negative then -(n : Int) else n) exponent), after) := by
  rw [unsigned?, wholeDigits?_toDigits n fun c isHead => (stops c isHead).1]
  simp only [fractionDigits?_eq fun c isHead => (stops c isHead).2, isExponent, List.append_nil,
    Nat.ofDigitChars_ten_toDigits, List.length_nil, Int.natCast_zero, Int.sub_zero]

/-- Every number has a first digit. -/
theorem toDigits_eq_cons
    (n : Nat) :
    ∃ digit digits, Nat.toDigits 10 n = digit :: digits ∧ digit.isDigit = true := by
  cases shape : Nat.toDigits 10 n with
  | nil => exact absurd shape Nat.toDigits_ne_nil
  | cons digit digits =>
      refine ⟨digit, digits, rfl, ?_⟩
      have isDigit : digit ∈ Nat.toDigits 10 n := by simp [shape]
      exact Nat.isDigit_of_mem_toDigits (by decide) (by decide) isDigit

/-- The digits of a number have no sign in front. -/
theorem splitSign_toDigits
    (n : Nat)
    (rest : List Char) :
    splitSign (Nat.toDigits 10 n ++ rest) = ([], Nat.toDigits 10 n ++ rest) := by
  obtain ⟨digit, digits, shape, isDigit⟩ := toDigits_eq_cons n
  rw [shape, List.cons_append, splitSign]
  · rintro _ isSign
    rw [(List.cons.inj isSign).1] at isDigit
    cases isDigit
  · rintro _ isSign
    rw [(List.cons.inj isSign).1] at isDigit
    cases isDigit

/-- An exponent is read with its sign. -/
theorem exponent?_integer
    (exponent : Int)
    {rest : List Char}
    (stops : ∀ c ∈ rest.head?, c.isDigit = false) :
    exponent? ('e' :: (integer exponent ++ rest)) = some (exponent, rest) := by
  rw [exponent?, if_pos (Or.inl rfl)]
  cases exponent with
  | ofNat n =>
      obtain ⟨digit, digits, shape, _⟩ := toDigits_eq_cons n
      have value : Nat.ofDigitChars 10 (digit :: digits) 0 = n := by
        rw [← shape, Nat.ofDigitChars_ten_toDigits]
      simp only [integer, splitSign_toDigits, splitDigits_toDigits n stops]
      simp [shape, value]
  | negSucc n =>
      obtain ⟨digit, digits, shape, _⟩ := toDigits_eq_cons (n + 1)
      have value : Nat.ofDigitChars 10 (digit :: digits) 0 = n + 1 := by
        rw [← shape, Nat.ofDigitChars_ten_toDigits]
      simp only [integer, List.cons_append, splitSign, splitDigits_toDigits (n + 1) stops]
      simp [shape, value, Int.negSucc_eq]

/-- A digit or a minus opens a number. -/
theorem first?_eq_number?
    {c : Char}
    (opens : c.isDigit = true ∨ c = '-')
    (rest : List Char) :
    Token.first? (c :: rest) = number? (c :: rest) := by
  rw [Token.first?]
  all_goals
    intros
    rename_i isOther
    rw [(List.cons.inj isOther).1] at opens
    exact absurd opens (by decide)

/-- A written numeral starts with a digit or with a minus. -/
theorem numeral_eq_cons
    (mantissa exponent : Int) :
    ∃ c rest, numeral mantissa exponent = c :: rest ∧ (c.isDigit = true ∨ c = '-') := by
  obtain ⟨c, digits, shape, opens⟩ :
      ∃ c digits, integer mantissa = c :: digits ∧ (c.isDigit = true ∨ c = '-') := by
    cases mantissa with
    | ofNat n =>
        obtain ⟨digit, digits, shape, isDigit⟩ := toDigits_eq_cons n
        exact ⟨digit, digits, shape, Or.inl isDigit⟩
    | negSucc n => exact ⟨'-', Nat.toDigits 10 (n + 1), rfl, Or.inr rfl⟩
  unfold numeral
  split
  · exact ⟨c, digits, shape, opens⟩
  · exact ⟨c, digits ++ 'e' :: integer exponent, by rw [shape, List.cons_append], opens⟩

/-- A numeral is one token with its number. -/
theorem first?_numeral
    (mantissa exponent : Int)
    {rest : List Char}
    (stops : EndsNumeral rest) :
    Token.first? (numeral mantissa exponent ++ rest) =
      some (.scalar (.number mantissa exponent), rest) := by
  obtain ⟨tail, shape, tailStops, isExponent⟩ :
      ∃ tail,
        numeral mantissa exponent ++ rest = integer mantissa ++ tail ∧
          (∀ c ∈ tail.head?, c.isDigit = false ∧ c ≠ '.') ∧
          exponent? tail = some (exponent, rest) := by
    by_cases isZero : exponent = 0
    · refine ⟨rest, by rw [numeral, if_pos isZero], ?_, by rw [exponent?_eq_zero stops, isZero]⟩
      exact fun c isHead => ⟨(stops c isHead).1, (stops c isHead).2.1⟩
    · refine ⟨'e' :: (integer exponent ++ rest), ?_, ?_, ?_⟩
      · rw [numeral, if_neg isZero, List.append_assoc, List.cons_append]
      · simp
      · exact exponent?_integer exponent fun c isHead => (stops c isHead).1
  rw [shape]
  cases mantissa with
  | ofNat n =>
      have isNumber := unsigned?_toDigits false n tailStops isExponent
      obtain ⟨digit, digits, digitShape, isDigit⟩ := toDigits_eq_cons n
      rw [digitShape, List.cons_append] at isNumber
      rw [integer, digitShape, List.cons_append, first?_eq_number? (Or.inl isDigit), number?,
        isNumber]
      · rfl
      · rintro _ isSign
        rw [(List.cons.inj isSign).1] at isDigit
        cases isDigit
  | negSucc n =>
      have isNumber := unsigned?_toDigits true (n + 1) tailStops isExponent
      rw [integer, List.cons_append, first?_eq_number? (Or.inr rfl), number?, isNumber]
      rfl

end Json

end Flowmark
