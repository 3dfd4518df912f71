import Flowmark.Proofs.Json.RoundTrip
import Flowmark.Text.LetterCase
import Mathlib.Data.List.Basic

namespace Flowmark

open Text

/-!
# How JSON tokens are spelled

A token can be spelled in more than one way: strings by escapes, numbers by fractions and exponents,
and any space may stand between tokens.  A text is cut into tokens exactly where it spells them.
-/

namespace Json

/-! ## String literals -/

/-- The letters behind a backslash, with the characters for which they stand. -/
def shortEscapes : List (Char × Char) := [
  ('"', '"'), ('\\', '\\'), ('/', '/'), ('b', '\x08'), ('f', '\x0c'), ('n', '\n'), ('r', '\r'),
  ('t', '\t')]

/-- A hexadecimal digit with a value, in either letter case. -/
def IsHexDigit
    (c : Char)
    (value : Nat) :
    Prop :=
  value < 16 ∧ c.toLower = Nat.digitChar value

/-- How a code stands in a string literal: as it is, by a letter, or by four hexadecimal digits. -/
inductive SpellsCode : List Char → Nat → Prop where
  | plain
      {c : Char}
      (notControl : 0x20 ≤ c.toNat)
      (notQuote : c ≠ '"')
      (notEscape : c ≠ '\\') :
      SpellsCode [c] c.toNat
  | short
      {letter c : Char}
      (isEscape : (letter, c) ∈ shortEscapes) :
      SpellsCode ['\\', letter] c.toNat
  | long
      {first second third fourth : Char}
      {a b c d : Nat}
      (isFirst : IsHexDigit first a)
      (isSecond : IsHexDigit second b)
      (isThird : IsHexDigit third c)
      (isFourth : IsHexDigit fourth d) :
      SpellsCode ['\\', 'u', first, second, third, fourth] (0x1000 * a + 0x100 * b + 0x10 * c + d)

/-- Codes stand in a string literal one after another. -/
inductive SpellsCodes : List Char → List Nat → Prop where
  | nil :
      SpellsCodes [] []
  | cons
      {spelling text : List Char}
      {code : Nat}
      {codes : List Nat}
      (first : SpellsCode spelling code)
      (others : SpellsCodes text codes) :
      SpellsCodes (spelling ++ text) (code :: codes)

/-- Codes name a text: each character by its code point or by a surrogate pair. -/
inductive CodesName : List Nat → List Char → Prop where
  | nil :
      CodesName [] []
  | single
      {c : Char}
      {codes : List Nat}
      {text : List Char}
      (others : CodesName codes text) :
      CodesName (c.toNat :: codes) (c :: text)
  | pair
      {high low : Nat}
      {c : Char}
      {codes : List Nat}
      {text : List Char}
      (isHigh : 0xd800 ≤ high ∧ high < 0xdc00)
      (isLow : 0xdc00 ≤ low ∧ low < 0xe000)
      (joins : c.toNat = 0x10000 + (high - 0xd800) * 0x400 + (low - 0xdc00))
      (others : CodesName codes text) :
      CodesName (high :: low :: codes) (c :: text)

/-- A string literal, with the text that its codes name, or without content where they name none. -/
inductive SpellsLiteral : List Char → Option String → Prop where
  | text
      {inner : List Char}
      {codes : List Nat}
      {content : String}
      (spelled : SpellsCodes inner codes)
      (named : CodesName codes content.toList) :
      SpellsLiteral ('"' :: (inner ++ ['"'])) (some content)
  | noText
      {inner : List Char}
      {codes : List Nat}
      (spelled : SpellsCodes inner codes)
      (unnamed : ∀ text, ¬ CodesName codes text) :
      SpellsLiteral ('"' :: (inner ++ ['"'])) none

/-- What becomes a letter in lower case is that letter or its upper case. -/
theorem eq_or_of_toLower_eq
    {c letter : Char}
    (same : c.toLower = letter) :
    c = letter ∨ 65 ≤ c.toNat ∧ c.toNat ≤ 90 ∧ c.toNat + 32 = letter.toNat := by
  by_cases upper : 65 ≤ c.toNat ∧ c.toNat ≤ 90
  · rw [← same, toNat_toLower_of_upper upper]
    exact Or.inr ⟨upper.1, upper.2, rfl⟩
  · rw [toLower_of_not_upper upper] at same
    exact Or.inl same

/-- Hexadecimal digits are ASCII characters. -/
theorem toNat_lt_of_hexValue?
    {c : Char}
    {value : Nat}
    (read : hexValue? c = some value) :
    c.toNat < 128 := by
  unfold hexValue? at read
  split at read
  · rename_i isDigit
    simp only [Char.isDigit, Bool.and_eq_true, decide_eq_true_eq] at isDigit
    have small : c.toNat ≤ 57 := UInt32.le_iff_toNat_le.mp isDigit.2
    omega
  · split at read
    · rename_i isLower
      have small : c.toNat ≤ 102 := UInt32.le_iff_toNat_le.mp isLower.2
      omega
    · split at read
      · rename_i isUpper
        have small : c.toNat ≤ 70 := UInt32.le_iff_toNat_le.mp isUpper.2
        omega
      · cases read

/-- The characters read as hexadecimal digits are those of the grammar. -/
theorem hexValue?_eq_some_iff
    {c : Char}
    {value : Nat} :
    hexValue? c = some value ↔ IsHexDigit c value := by
  constructor
  · intro read
    have all : ∀ n : Fin 128, ∀ value ∈ hexValue? (Char.ofNat n),
        value < 16 ∧ (Char.ofNat n).toLower = Nat.digitChar value := by decide
    have found := all ⟨c.toNat, toNat_lt_of_hexValue? read⟩ value
    rw [Char.ofNat_toNat] at found
    exact found read
  · rintro ⟨small, isDigit⟩
    have lower : ∀ n : Fin 16, hexValue? (Nat.digitChar n) = some n.val := by decide
    have upper : ∀ n : Fin 16, 97 ≤ (Nat.digitChar n).toNat →
        hexValue? (Char.ofNat ((Nat.digitChar n).toNat - 32)) = some n.val := by decide
    rcases eq_or_of_toLower_eq isDigit with rfl | ⟨isLetter, _, shifted⟩
    · exact lower ⟨value, small⟩
    · have found := upper ⟨value, small⟩ (by rw [← shifted]; omega)
      rwa [← shifted, Nat.add_sub_cancel, Char.ofNat_toNat] at found

/-- A code in hexadecimal is read from four digits, the most significant first. -/
theorem hexCode?_eq_some_iff
    {first second third fourth : Char}
    {code : Nat} :
    hexCode? first second third fourth = some code ↔
      ∃ a b c d,
        IsHexDigit first a ∧ IsHexDigit second b ∧ IsHexDigit third c ∧ IsHexDigit fourth d ∧
          0x1000 * a + 0x100 * b + 0x10 * c + d = code := by
  simp only [hexCode?, List.foldl_cons, List.foldl_nil, Option.bind_eq_some_iff,
    Option.map_eq_some_iff, ← hexValue?_eq_some_iff]
  constructor
  · rintro ⟨_, ⟨_, ⟨_, ⟨_, isZero, a, isFirst, rfl⟩, b, isSecond, rfl⟩, c, isThird, rfl⟩, d,
      isFourth, rfl⟩
    cases isZero
    exact ⟨a, b, c, d, isFirst, isSecond, isThird, isFourth, by omega⟩
  · rintro ⟨a, b, c, d, isFirst, isSecond, isThird, isFourth, rfl⟩
    exact ⟨_, ⟨_, ⟨_, ⟨0, rfl, a, isFirst, rfl⟩, b, isSecond, rfl⟩, c, isThird, rfl⟩, d, isFourth,
      by omega⟩

/-- The letters read behind a backslash are those of the table of short escapes. -/
theorem simpleEscape?_eq_some_iff
    {letter c : Char} :
    simpleEscape? letter = some c ↔ (letter, c) ∈ shortEscapes := by
  constructor
  · intro isEscape
    unfold simpleEscape? at isEscape
    split at isEscape
    case h_9 => cases isEscape
    all_goals
      cases isEscape
      decide
  · intro listed
    have all : ∀ escape ∈ shortEscapes, simpleEscape? escape.1 = some escape.2 := by decide
    exact all _ listed

/-- A code is read from its spelling, whatever follows. -/
theorem literalCodes?_append
    {spelling : List Char}
    {code : Nat}
    (spelled : SpellsCode spelling code)
    (rest : List Char) :
    literalCodes? (spelling ++ rest) =
      (literalCodes? rest).map fun (codes, after) => (code :: codes, after) := by
  cases spelled with
  | plain notControl notQuote notEscape =>
      exact literalCodes?_plain (Nat.not_lt.mpr notControl) notQuote notEscape rest
  | short isEscape =>
      exact literalCodes?_simpleEscape (simpleEscape?_eq_some_iff.mpr isEscape) rest
  | long isFirst isSecond isThird isFourth =>
      have isCode := hexCode?_eq_some_iff.mpr
        ⟨_, _, _, _, isFirst, isSecond, isThird, isFourth, rfl⟩
      simp only [List.cons_append, List.nil_append, literalCodes?, isCode]
      cases literalCodes? rest <;> rfl

/-- A literal is read as the codes that it spells up to its closing quote. -/
theorem literalCodes?_eq_some_iff
    {text after : List Char}
    {codes : List Nat} :
    literalCodes? text = some (codes, after) ↔
      ∃ inner, text = inner ++ '"' :: after ∧ SpellsCodes inner codes := by
  constructor
  · intro read
    fun_induction literalCodes? text generalizing codes after with
    | case1 => cases read
    | case2 rest =>
        cases read
        exact ⟨[], rfl, .nil⟩
    | case3 first second third fourth rest code codes' after' isRest isCode inductionHypothesis =>
        cases read
        obtain ⟨inner, rfl, spelled⟩ := inductionHypothesis isRest
        obtain ⟨a, b, c, d, isFirst, isSecond, isThird, isFourth, rfl⟩ :=
          hexCode?_eq_some_iff.mp isCode
        exact ⟨_, rfl, .cons (.long isFirst isSecond isThird isFourth) spelled⟩
    | case4 => cases read
    | case5 letter rest notCode c codes' after' isRest isEscape inductionHypothesis =>
        cases read
        obtain ⟨inner, rfl, spelled⟩ := inductionHypothesis isRest
        exact ⟨_, rfl, .cons (.short (simpleEscape?_eq_some_iff.mp isEscape)) spelled⟩
    | case6 => cases read
    | case7 => cases read
    | case8 c rest notQuote notCode notShort plain codes' after' isRest inductionHypothesis =>
        cases read
        obtain ⟨inner, rfl, spelled⟩ := inductionHypothesis isRest
        obtain ⟨notControl, notEscape⟩ := not_or.mp plain
        exact ⟨_, rfl, .cons (.plain (Nat.not_lt.mp notControl) notQuote notEscape) spelled⟩
    | case9 => cases read
  · rintro ⟨inner, rfl, spelled⟩
    induction spelled with
    | nil => rfl
    | cons first others inductionHypothesis =>
        rw [List.append_assoc, literalCodes?_append first, inductionHypothesis]
        rfl

/-- The codes of a literal lie in the range of Unicode. -/
theorem lt_of_spellsCodes
    {inner : List Char}
    {codes : List Nat}
    (spelled : SpellsCodes inner codes) :
    ∀ code ∈ codes, code < 0x110000 := by
  have charLt : ∀ c : Char, c.toNat < 0x110000 := by
    intro c
    have valid : c.toNat < 0xd800 ∨ 0xdfff < c.toNat ∧ c.toNat < 0x110000 := c.valid
    omega
  induction spelled with
  | nil => simp
  | cons first _ inductionHypothesis =>
      refine List.forall_mem_cons.mpr ⟨?_, inductionHypothesis⟩
      cases first with
      | plain => exact charLt _
      | short => exact charLt _
      | long isFirst isSecond isThird isFourth =>
          have firstSmall := isFirst.1
          have secondSmall := isSecond.1
          have thirdSmall := isThird.1
          have fourthSmall := isFourth.1
          omega

/-- The high halves of surrogate pairs. -/
theorem isHighSurrogate_iff
    {code : Nat} :
    isHighSurrogate code = true ↔ 0xd800 ≤ code ∧ code < 0xdc00 := by
  simp [isHighSurrogate]

/-- The low halves of surrogate pairs. -/
theorem isLowSurrogate_iff
    {code : Nat} :
    isLowSurrogate code = true ↔ 0xdc00 ≤ code ∧ code < 0xe000 := by
  simp [isLowSurrogate]

/-- The code of a character is decoded to that character. -/
theorem decodeCodes?_single
    (c : Char)
    (codes : List Nat) :
    decodeCodes? (c.toNat :: codes) = (decodeCodes? codes).map (c :: ·) := by
  obtain ⟨notHigh, notLow⟩ := not_isSurrogate_toNat c
  cases codes with
  | nil => simp [decodeCodes?, notHigh, notLow]
  | cons next codes => simp [decodeCodes?, notHigh, notLow]

/-- A code outside the surrogates is the code of its character. -/
theorem toNat_ofNat
    {code : Nat}
    (valid : code < 0xd800 ∨ 0xdfff < code ∧ code < 0x110000) :
    (Char.ofNat code).toNat = code := by
  rw [Char.ofNat, dif_pos valid]
  rfl

/-- A code point names its character. -/
theorem CodesName.ofNat
    {code : Nat}
    {codes : List Nat}
    {text : List Char}
    (valid : code < 0x110000)
    (notHigh : ¬ isHighSurrogate code = true)
    (notLow : ¬ isLowSurrogate code = true)
    (others : CodesName codes text) :
    CodesName (code :: codes) (Char.ofNat code :: text) := by
  rw [isHighSurrogate_iff] at notHigh
  rw [isLowSurrogate_iff] at notLow
  have isChar : (Char.ofNat code).toNat = code := toNat_ofNat (by omega)
  have named := @CodesName.single (Char.ofNat code) _ _ others
  rwa [isChar] at named

/-- Codes are decoded to the text that they name. -/
theorem decodeCodes?_eq_some_iff
    {codes : List Nat}
    (valid : ∀ code ∈ codes, code < 0x110000)
    {text : List Char} :
    decodeCodes? codes = some text ↔ CodesName codes text := by
  constructor
  · intro decoded
    fun_induction decodeCodes? codes generalizing text with
    | case1 =>
        cases decoded
        exact .nil
    | case2 high low rest isHigh isLow inductionHypothesis =>
        obtain ⟨others, isText, rfl⟩ := Option.map_eq_some_iff.mp decoded
        have bounds := isHighSurrogate_iff.mp isHigh
        have lowBounds := isLowSurrogate_iff.mp isLow
        refine .pair bounds lowBounds (toNat_ofNat ?_) (inductionHypothesis ?_ isText)
        · unfold joinSurrogates
          omega
        · exact fun code member => valid code (by simp [member])
    | case3 => cases decoded
    | case4 => cases decoded
    | case5 high low rest notHigh notLow inductionHypothesis =>
        obtain ⟨others, isText, rfl⟩ := Option.map_eq_some_iff.mp decoded
        refine .ofNat (valid high (by simp)) notHigh notLow (inductionHypothesis ?_ isText)
        exact fun code member => valid code (List.mem_cons_of_mem _ member)
    | case6 => cases decoded
    | case7 code notHalf =>
        cases decoded
        obtain ⟨notHigh, notLow⟩ := not_or.mp (mt Bool.or_eq_true_iff.mpr notHalf)
        exact .ofNat (valid code (by simp)) notHigh notLow .nil
  · intro named
    clear valid
    induction named with
    | nil => rfl
    | single _ inductionHypothesis => rw [decodeCodes?_single, inductionHypothesis, Option.map_some]
    | pair isHigh isLow joins _ inductionHypothesis =>
        have isChar : Char.ofNat (joinSurrogates _ _) = _ :=
          (congrArg Char.ofNat joins.symm).trans (Char.ofNat_toNat _)
        rw [decodeCodes?, if_pos (isHighSurrogate_iff.mpr isHigh),
          if_pos (isLowSurrogate_iff.mpr isLow), inductionHypothesis, Option.map_some, isChar]

/-- A literal is one token with its content, whatever follows. -/
theorem first?_of_spellsLiteral
    {text : List Char}
    {content : Option String}
    (spelled : SpellsLiteral text content)
    (rest : List Char) :
    Token.first? (text ++ rest) = some (.string content, rest) := by
  have reads : ∀ {inner : List Char} {codes : List Nat}, SpellsCodes inner codes →
      Token.first? (('"' :: (inner ++ ['"'])) ++ rest) =
        some (.string ((decodeCodes? codes).map String.ofList), rest) := by
    intro inner codes spelled
    have read : literalCodes? (inner ++ '"' :: rest) = some (codes, rest) :=
      literalCodes?_eq_some_iff.mpr ⟨inner, rfl, spelled⟩
    rw [List.cons_append, List.append_assoc, List.singleton_append, first?_quote, read]
    rfl
  cases spelled with
  | text spelled named =>
      have decoded := (decodeCodes?_eq_some_iff (lt_of_spellsCodes spelled)).mpr named
      rw [reads spelled, decoded, Option.map_some, String.ofList_toList]
  | @noText inner codes spelled unnamed =>
      have undecoded : decodeCodes? codes = none := by
        rw [Option.eq_none_iff_forall_ne_some]
        exact fun text decoded =>
          unnamed text ((decodeCodes?_eq_some_iff (lt_of_spellsCodes spelled)).mp decoded)
      rw [reads spelled, undecoded, Option.map_none]

/-- What is read behind a quote spells a literal with the decoded content. -/
theorem spellsLiteral_of_literalCodes?
    {rest after : List Char}
    {codes : List Nat}
    (read : literalCodes? rest = some (codes, after)) :
    ∃ text, '"' :: rest = text ++ after ∧
      SpellsLiteral text ((decodeCodes? codes).map String.ofList) := by
  obtain ⟨inner, rfl, spelled⟩ := literalCodes?_eq_some_iff.mp read
  refine ⟨'"' :: (inner ++ ['"']), by simp, ?_⟩
  have isNamed := fun text => @decodeCodes?_eq_some_iff codes (lt_of_spellsCodes spelled) text
  cases decoded : decodeCodes? codes with
  | none =>
      refine .noText spelled fun text named => ?_
      rw [(isNamed text).mpr named] at decoded
      cases decoded
  | some text =>
      refine .text spelled ?_
      rw [String.toList_ofList]
      exact (isNamed text).mp decoded

/-! ## Numbers -/

/-- One or more of the digits from `0` to `9`. -/
def AreDigits
    (digits : List Char) :
    Prop :=
  digits ≠ [] ∧ ∀ c ∈ digits, c.isDigit = true

/-- The digits behind a point, or none without a point. -/
inductive SpellsFraction : List Char → List Char → Prop where
  | none :
      SpellsFraction [] []
  | point
      {digits : List Char}
      (areDigits : AreDigits digits) :
      SpellsFraction ('.' :: digits) digits

/-- The exponent behind its letter, or zero without a letter. -/
inductive SpellsExponent : List Char → Int → Prop where
  | none :
      SpellsExponent [] 0
  | unsigned
      {letter : Char}
      {digits : List Char}
      (isLetter : letter = 'e' ∨ letter = 'E')
      (areDigits : AreDigits digits) :
      SpellsExponent (letter :: digits) (Nat.ofDigitChars 10 digits 0 : Nat)
  | positive
      {letter : Char}
      {digits : List Char}
      (isLetter : letter = 'e' ∨ letter = 'E')
      (areDigits : AreDigits digits) :
      SpellsExponent (letter :: '+' :: digits) (Nat.ofDigitChars 10 digits 0 : Nat)
  | negative
      {letter : Char}
      {digits : List Char}
      (isLetter : letter = 'e' ∨ letter = 'E')
      (areDigits : AreDigits digits) :
      SpellsExponent (letter :: '-' :: digits) (-(Nat.ofDigitChars 10 digits 0 : Nat))

/-- A number without a sign, as digits times ten to the power of an exponent. -/
inductive SpellsSize : List Char → Nat → Int → Prop where
  | intro
      {whole fractionText fraction exponentText : List Char}
      {exponent : Int}
      (areDigits : AreDigits whole)
      (noLeadingZero : whole.head? = some '0' → whole = ['0'])
      (isFraction : SpellsFraction fractionText fraction)
      (isExponent : SpellsExponent exponentText exponent) :
      SpellsSize (whole ++ (fractionText ++ exponentText))
        (Nat.ofDigitChars 10 (whole ++ fraction) 0) (exponent - fraction.length)

/-- A number, which may have a minus sign. -/
inductive SpellsNumber : List Char → Int → Int → Prop where
  | unsigned
      {text : List Char}
      {size : Nat}
      {exponent : Int}
      (isSize : SpellsSize text size exponent) :
      SpellsNumber text size exponent
  | negative
      {text : List Char}
      {size : Nat}
      {exponent : Int}
      (isSize : SpellsSize text size exponent) :
      SpellsNumber ('-' :: text) (-size) exponent

/-- The digits before a point are read up to the first character that is no digit. -/
theorem wholeDigits?_append
    {whole rest : List Char}
    (areDigits : AreDigits whole)
    (noLeadingZero : whole.head? = some '0' → whole = ['0'])
    (stops : ∀ c ∈ rest.head?, c.isDigit = false) :
    wholeDigits? (whole ++ rest) = some (whole, rest) := by
  cases whole with
  | nil => exact absurd rfl areDigits.1
  | cons digit digits =>
      by_cases isZero : digit = '0'
      · rw [noLeadingZero (by rw [isZero, List.head?_cons])]
        rfl
      · have split := splitDigits_append_of_digits areDigits.2 stops
        rw [List.cons_append] at split ⊢
        rw [wholeDigits?, split]
        rintro _ shape
        exact isZero (List.cons.inj shape).1

/-- The digits behind a point are read up to the first character that is no digit. -/
theorem fractionDigits?_append
    {text fraction rest : List Char}
    (isFraction : SpellsFraction text fraction)
    (stops : ∀ c ∈ rest.head?, c.isDigit = false ∧ c ≠ '.') :
    fractionDigits? (text ++ rest) = some (fraction, rest) := by
  cases isFraction with
  | none => exact fractionDigits?_eq fun c isHead => (stops c isHead).2
  | point areDigits =>
      have split := splitDigits_append_of_digits areDigits.2 fun c isHead => (stops c isHead).1
      rw [List.cons_append, fractionDigits?, split]
      obtain ⟨digit, digits, rfl⟩ := List.exists_cons_of_ne_nil areDigits.1
      rfl

/-- No sign is split off in front of digits. -/
theorem splitSign_append_of_digits
    {digits rest : List Char}
    (areDigits : AreDigits digits) :
    splitSign (digits ++ rest) = ([], digits ++ rest) := by
  obtain ⟨nonempty, allDigits⟩ := areDigits
  cases digits with
  | nil => exact absurd rfl nonempty
  | cons digit digits =>
      have isDigit := allDigits digit (by simp)
      rw [List.cons_append, splitSign]
      all_goals
        rintro _ shape
        rw [(List.cons.inj shape).1] at isDigit
        cases isDigit

/-- An exponent is read behind its letter, with its sign, up to the last of its digits. -/
theorem exponent?_cons
    {letter : Char}
    {sign digits rest after : List Char}
    (isLetter : letter = 'e' ∨ letter = 'E')
    (isSign : splitSign rest = (sign, digits ++ after))
    (areDigits : AreDigits digits)
    (stops : ∀ c ∈ after.head?, c.isDigit = false) :
    exponent? (letter :: rest) =
      some (if sign = ['-'] then -(Nat.ofDigitChars 10 digits 0 : Int) else
        (Nat.ofDigitChars 10 digits 0 : Int), after) := by
  rw [exponent?, if_pos isLetter]
  simp only [isSign, splitDigits_append_of_digits areDigits.2 stops]
  obtain ⟨digit, others, rfl⟩ := List.exists_cons_of_ne_nil areDigits.1
  rfl

/-- A spelled exponent is read whole where nothing that follows continues a numeral. -/
theorem exponent?_append
    {text rest : List Char}
    {exponent : Int}
    (isExponent : SpellsExponent text exponent)
    (stops : EndsNumeral rest) :
    exponent? (text ++ rest) = some (exponent, rest) := by
  have digitsStop : ∀ c ∈ rest.head?, c.isDigit = false := fun c isHead => (stops c isHead).1
  cases isExponent with
  | none => exact exponent?_eq_zero stops
  | unsigned isLetter areDigits =>
      exact exponent?_cons isLetter (splitSign_append_of_digits areDigits) areDigits digitsStop
  | @positive letter digits isLetter areDigits =>
      have isSign : splitSign ('+' :: (digits ++ rest)) = (['+'], digits ++ rest) := rfl
      exact exponent?_cons isLetter isSign areDigits digitsStop
  | @negative letter digits isLetter areDigits =>
      have isSign : splitSign ('-' :: (digits ++ rest)) = (['-'], digits ++ rest) := rfl
      exact exponent?_cons isLetter isSign areDigits digitsStop

/-- A spelled exponent starts with its letter. -/
theorem SpellsExponent.head?
    {text : List Char}
    {exponent : Int}
    (isExponent : SpellsExponent text exponent) :
    ∀ c ∈ text.head?, c = 'e' ∨ c = 'E' := by
  cases isExponent with
  | none => simp
  | unsigned isLetter => simpa using isLetter
  | positive isLetter => simpa using isLetter
  | negative isLetter => simpa using isLetter

/-- A spelled fraction starts with its point. -/
theorem SpellsFraction.head?
    {text fraction : List Char}
    (isFraction : SpellsFraction text fraction) :
    ∀ c ∈ text.head?, c = '.' := by
  cases isFraction with
  | none => simp
  | point => simp

/-- A number without a sign is read whole where nothing that follows continues it. -/
theorem unsigned?_append
    {text rest : List Char}
    {size : Nat}
    {exponent : Int}
    (negative : Bool)
    (isSize : SpellsSize text size exponent)
    (stops : EndsNumeral rest) :
    unsigned? negative (text ++ rest) =
      some (.scalar (.number (if negative then -(size : Int) else size) exponent), rest) := by
  cases isSize with
  | @intro whole fractionText fraction exponentText exponent areDigits noLeadingZero isFraction
      isExponent =>
      have afterFraction : ∀ c ∈ (exponentText ++ rest).head?, c.isDigit = false ∧ c ≠ '.' := by
        intro c isHead
        cases exponentText with
        | nil => exact ⟨(stops c isHead).1, (stops c isHead).2.1⟩
        | cons letter others =>
            obtain rfl : letter = c := by simpa using isHead
            rcases isExponent.head? letter (by simp) with rfl | rfl <;> decide
      have afterWhole : ∀ c ∈ (fractionText ++ (exponentText ++ rest)).head?,
          c.isDigit = false := by
        intro c isHead
        cases fractionText with
        | nil => exact (afterFraction c isHead).1
        | cons point others =>
            obtain rfl : point = c := by simpa using isHead
            rw [isFraction.head? point (by simp)]
            rfl
      rw [List.append_assoc, List.append_assoc, unsigned?,
        wholeDigits?_append areDigits noLeadingZero afterWhole]
      simp only [fractionDigits?_append isFraction afterFraction,
        exponent?_append isExponent stops]

/-! ### What is read as a number -/

/-- Digits that are split off are digits, and none of the text is lost. -/
theorem areDigits_of_splitDigits
    {text digits after : List Char}
    (split : splitDigits text = (digits, after))
    (nonempty : digits ≠ []) :
    text = digits ++ after ∧ AreDigits digits := by
  have shape := splitDigits_append text
  rw [split] at shape
  refine ⟨shape.symm, nonempty, fun c member => ?_⟩
  have taken : digits = text.takeWhile Char.isDigit := (congrArg Prod.fst split).symm
  rw [taken] at member
  exact List.all_eq_true.mp List.all_takeWhile c member

/-- What is read as whole digits are digits without a leading zero. -/
theorem spells_of_wholeDigits?
    {text digits after : List Char}
    (read : wholeDigits? text = some (digits, after)) :
    text = digits ++ after ∧ AreDigits digits ∧ (digits.head? = some '0' → digits = ['0']) := by
  unfold wholeDigits? at read
  split at read
  · cases read
    exact ⟨rfl, ⟨by simp, List.forall_mem_singleton.mpr rfl⟩, fun _ => rfl⟩
  · rename_i notZero
    split at read
    · cases read
    · rename_i notEmpty
      have split := Option.some.inj read
      have nonempty : digits ≠ [] := by
        rintro rfl
        exact notEmpty after split
      obtain ⟨rfl, areDigits⟩ := areDigits_of_splitDigits split nonempty
      refine ⟨rfl, areDigits, fun isZero => ?_⟩
      obtain ⟨others, rfl⟩ := List.head?_eq_some_iff.mp isZero
      exact absurd rfl (notZero (others ++ after))

/-- What is read as a fraction spells one. -/
theorem spells_of_fractionDigits?
    {text digits after : List Char}
    (read : fractionDigits? text = some (digits, after)) :
    ∃ spelling, text = spelling ++ after ∧ SpellsFraction spelling digits := by
  unfold fractionDigits? at read
  split at read
  · rename_i rest
    split at read
    · cases read
    · rename_i notEmpty
      have split := Option.some.inj read
      have nonempty : digits ≠ [] := by
        rintro rfl
        exact notEmpty after split
      obtain ⟨rfl, areDigits⟩ := areDigits_of_splitDigits split nonempty
      exact ⟨'.' :: digits, rfl, .point areDigits⟩
  · cases read
    exact ⟨[], rfl, .none⟩

/-- A text starts with a plus, with a minus or with no sign. -/
theorem splitSign_cases
    (text : List Char) :
    text = '+' :: (splitSign text).2 ∧ (splitSign text).1 = ['+'] ∨
      text = '-' :: (splitSign text).2 ∧ (splitSign text).1 = ['-'] ∨
        text = (splitSign text).2 ∧ (splitSign text).1 = [] := by
  unfold splitSign
  split
  · exact Or.inl ⟨rfl, rfl⟩
  · exact Or.inr (Or.inl ⟨rfl, rfl⟩)
  · exact Or.inr (Or.inr ⟨rfl, rfl⟩)

/-- What is read as an exponent spells one. -/
theorem spells_of_exponent?
    {text after : List Char}
    {exponent : Int}
    (read : exponent? text = some (exponent, after)) :
    ∃ spelling, text = spelling ++ after ∧ SpellsExponent spelling exponent := by
  unfold exponent? at read
  split at read
  · cases read
    exact ⟨[], rfl, .none⟩
  · rename_i letter rest
    split at read
    · rename_i isLetter
      simp only at read
      split at read
      · cases read
      · rename_i digits others notEmpty split
        cases read
        have nonempty : digits ≠ [] := by
          rintro rfl
          exact notEmpty rfl
        obtain ⟨shape, areDigits⟩ := areDigits_of_splitDigits split nonempty
        have signs := splitSign_cases rest
        rw [shape] at signs
        rcases signs with ⟨rfl, sign⟩ | ⟨rfl, sign⟩ | ⟨rfl, sign⟩
        · rw [sign]
          exact ⟨letter :: '+' :: digits, rfl, .positive isLetter areDigits⟩
        · rw [sign]
          exact ⟨letter :: '-' :: digits, rfl, .negative isLetter areDigits⟩
        · rw [sign]
          exact ⟨letter :: digits, rfl, .unsigned isLetter areDigits⟩
    · cases read
      exact ⟨[], rfl, .none⟩

/-- What is read as a number without a sign spells one, and the sign read before it is kept. -/
theorem spells_of_unsigned?
    {negative : Bool}
    {text after : List Char}
    {token : Token}
    (read : unsigned? negative text = some (token, after)) :
    ∃ spelling size exponent,
      text = spelling ++ after ∧
        SpellsSize spelling size exponent ∧
        token = .scalar (.number (if negative then -(size : Int) else size) exponent) := by
  unfold unsigned? at read
  split at read
  · cases read
  · rename_i isWhole
    obtain ⟨rfl, areDigits, noLeadingZero⟩ := spells_of_wholeDigits? isWhole
    split at read
    · cases read
    · rename_i isFraction
      obtain ⟨fractionText, rfl, spelledFraction⟩ := spells_of_fractionDigits? isFraction
      split at read
      · cases read
      · rename_i isExponent
        obtain ⟨exponentText, rfl, spelledExponent⟩ := spells_of_exponent? isExponent
        cases read
        exact ⟨_, _, _, by simp, .intro areDigits noLeadingZero spelledFraction spelledExponent,
          rfl⟩

/-- What is read as a number spells one. -/
theorem spells_of_number?
    {text after : List Char}
    {token : Token}
    (read : number? text = some (token, after)) :
    ∃ spelling mantissa exponent,
      text = spelling ++ after ∧
        SpellsNumber spelling mantissa exponent ∧
        token = .scalar (.number mantissa exponent) := by
  unfold number? at read
  split at read
  · obtain ⟨spelling, size, exponent, rfl, isSize, rfl⟩ := spells_of_unsigned? read
    exact ⟨'-' :: spelling, _, exponent, rfl, .negative isSize, rfl⟩
  · obtain ⟨spelling, size, exponent, rfl, isSize, rfl⟩ := spells_of_unsigned? read
    exact ⟨spelling, _, exponent, rfl, .unsigned isSize, rfl⟩

/-- A number is one token where nothing that follows continues it. -/
theorem first?_of_spellsNumber
    {text rest : List Char}
    {mantissa exponent : Int}
    (spelled : SpellsNumber text mantissa exponent)
    (stops : EndsNumeral rest) :
    Token.first? (text ++ rest) = some (.scalar (.number mantissa exponent), rest) := by
  cases spelled with
  | unsigned isSize =>
      have read := unsigned?_append false isSize stops
      obtain ⟨digit, others, rfl, isDigit⟩ : ∃ digit others,
          text = digit :: others ∧ digit.isDigit = true := by
        cases isSize with
        | intro areDigits =>
            obtain ⟨digit, digits, rfl⟩ := List.exists_cons_of_ne_nil areDigits.1
            exact ⟨digit, _, rfl, areDigits.2 digit (by simp)⟩
      rw [List.cons_append] at read ⊢
      rw [first?_eq_number? (Or.inl isDigit), number?, read]
      · rfl
      · rintro _ shape
        rw [(List.cons.inj shape).1] at isDigit
        cases isDigit
  | negative isSize =>
      have read := unsigned?_append true isSize stops
      rw [List.cons_append, first?_eq_number? (Or.inr rfl), number?, read]
      rfl

end Json

end Flowmark
