import Flowmark.Json.Value
import Flowmark.Text.Digits

namespace Flowmark

open Text

/-! # Tokens of JSON

A JSON text is first cut into tokens: brackets, braces, colons, commas, string literals, numbers
and the three named values.  Space between tokens is dropped.  The syntax is that of the standard
without any extension.
-/

namespace Json

/-- A token of a JSON text. -/
inductive Token where
  | openArray
  | closeArray
  | openObject
  | closeObject
  | colon
  | comma
  /-- A string literal with its content. -/
  | string (content : Option String)
  /-- A number or a named value. -/
  | scalar (value : Json)
  deriving Repr

/-- The four characters that may stand between tokens. -/
def isSpace
    (c : Char) :
    Bool :=
  c = ' ' || c = '\t' || c = '\n' || c = '\r'

/-! ## String literals -/

/-- The value of a hexadecimal digit. -/
def hexValue?
    (c : Char) :
    Option Nat :=
  if c.isDigit then
    some (c.toNat - '0'.toNat)
  else if 'a' ≤ c ∧ c ≤ 'f' then
    some (c.toNat - 'a'.toNat + 10)
  else if 'A' ≤ c ∧ c ≤ 'F' then
    some (c.toNat - 'A'.toNat + 10)
  else
    none

/-- The value of four hexadecimal digits. -/
def hexCode?
    (first second third fourth : Char) :
    Option Nat :=
  [first, second, third, fourth].foldl
    (fun value c => value.bind fun n => (hexValue? c).map fun digit => 16 * n + digit) (some 0)

/-- The character that a backslash and a letter stand for. -/
def simpleEscape? : Char → Option Char
  | '"' => some '"'
  | '\\' => some '\\'
  | '/' => some '/'
  | 'b' => some '\x08'
  | 'f' => some '\x0c'
  | 'n' => some '\n'
  | 'r' => some '\r'
  | 't' => some '\t'
  | _ => none

/--
The codes of a string literal after its opening quote, and what follows its closing quote.  A
code is a code point, or half of a surrogate pair where it is escaped.
-/
def literalCodes? : List Char → Option (List Nat × List Char)
  | [] => none
  | '"' :: rest => some ([], rest)
  | '\\' :: 'u' :: first :: second :: third :: fourth :: rest =>
      match hexCode? first second third fourth, literalCodes? rest with
      | some code, some (codes, after) => some (code :: codes, after)
      | _, _ => none
  | '\\' :: letter :: rest =>
      match simpleEscape? letter, literalCodes? rest with
      | some c, some (codes, after) => some (c.toNat :: codes, after)
      | _, _ => none
  | c :: rest =>
      if c.toNat < 0x20 ∨ c = '\\' then
        none
      else
        match literalCodes? rest with
        | some (codes, after) => some (c.toNat :: codes, after)
        | none => none

/-- Whether a code is the first half of a surrogate pair. -/
def isHighSurrogate
    (code : Nat) :
    Bool :=
  0xd800 ≤ code && code < 0xdc00

/-- Whether a code is the second half of a surrogate pair. -/
def isLowSurrogate
    (code : Nat) :
    Bool :=
  0xdc00 ≤ code && code < 0xe000

/-- The code point that a surrogate pair stands for. -/
def joinSurrogates
    (high low : Nat) :
    Nat :=
  0x10000 + (high - 0xd800) * 0x400 + (low - 0xdc00)

/-- The text of a list of codes, unless half of a surrogate pair stands alone in it. -/
def decodeCodes? : List Nat → Option (List Char)
  | [] => some []
  | high :: low :: rest =>
      if isHighSurrogate high then
        if isLowSurrogate low then
          (decodeCodes? rest).map (Char.ofNat (joinSurrogates high low) :: ·)
        else
          none
      else if isLowSurrogate high then
        none
      else
        (decodeCodes? (low :: rest)).map (Char.ofNat high :: ·)
  | [code] =>
      if isHighSurrogate code || isLowSurrogate code then none else some [Char.ofNat code]

/-! ## Numbers -/

/-- The digits before the point, without a leading zero, and the rest. -/
def wholeDigits? : List Char → Option (List Char × List Char)
  | '0' :: rest => some (['0'], rest)
  | text =>
      match splitDigits text with
      | ([], _) => none
      | split => some split

/-- The digits after a point, or none where there is no point, and the rest. -/
def fractionDigits? : List Char → Option (List Char × List Char)
  | '.' :: rest =>
      match splitDigits rest with
      | ([], _) => none
      | split => some split
  | text => some ([], text)

/-- The exponent after its letter, or zero where there is none, and the rest. -/
def exponent? : List Char → Option (Int × List Char)
  | [] => some (0, [])
  | letter :: rest =>
      if letter = 'e' ∨ letter = 'E' then
        let (sign, unsigned) := splitSign rest
        match splitDigits unsigned with
        | ([], _) => none
        | (digits, after) =>
            let size : Int := Nat.ofDigitChars 10 digits 0
            some (if sign = ['-'] then -size else size, after)
      else
        some (0, letter :: rest)

/-- The number without a sign at the start of a text, and the rest. -/
def unsigned?
    (negative : Bool)
    (text : List Char) :
    Option (Token × List Char) :=
  match wholeDigits? text with
  | none => none
  | some (whole, afterWhole) =>
      match fractionDigits? afterWhole with
      | none => none
      | some (fraction, afterFraction) =>
          match exponent? afterFraction with
          | none => none
          | some (exponent, after) =>
              let size : Int := Nat.ofDigitChars 10 (whole ++ fraction) 0
              let mantissa := if negative then -size else size
              some (.scalar (.number mantissa (exponent - fraction.length)), after)

/-- The number at the start of a text, and the rest. -/
def number? : List Char → Option (Token × List Char)
  | '-' :: rest => unsigned? true rest
  | text => unsigned? false text

/-! ## Every token shortens the text -/

/-- Reading a string literal takes at least its closing quote. -/
theorem length_of_literalCodes?
    {text after : List Char}
    {codes : List Nat}
    (read : literalCodes? text = some (codes, after)) :
    after.length < text.length := by
  fun_induction literalCodes? text generalizing codes after with
  | case1 => simp at read
  | case2 rest =>
      simp only [Option.some.injEq, Prod.mk.injEq] at read
      simp [read.2]
  | case3 first second third fourth rest code codes' after' isRest isCode inductionHypothesis =>
      simp only [Option.some.injEq, Prod.mk.injEq] at read
      have shorter := inductionHypothesis isRest
      rw [← read.2]
      simp only [List.length_cons]
      omega
  | case4 => simp at read
  | case5 letter rest notCode c codes' after' isRest isEscape inductionHypothesis =>
      simp only [Option.some.injEq, Prod.mk.injEq] at read
      have shorter := inductionHypothesis isRest
      rw [← read.2]
      simp only [List.length_cons]
      omega
  | case6 => simp at read
  | case7 => simp at read
  | case8 c rest notQuote notCode notEscape plain codes' after' isRest inductionHypothesis =>
      simp only [Option.some.injEq, Prod.mk.injEq] at read
      have shorter := inductionHypothesis isRest
      rw [← read.2]
      simp only [List.length_cons]
      omega
  | case9 => simp at read

/-- Splitting off digits loses nothing. -/
theorem length_splitDigits
    (text : List Char) :
    (splitDigits text).1.length + (splitDigits text).2.length = text.length := by
  rw [← List.length_append, splitDigits_append]

/-- Splitting off a sign adds nothing. -/
theorem length_splitSign
    (text : List Char) :
    (splitSign text).2.length ≤ text.length := by
  unfold splitSign
  split <;> simp

/-- Reading whole digits takes at least one digit. -/
theorem length_of_wholeDigits?
    {text digits after : List Char}
    (read : wholeDigits? text = some (digits, after)) :
    after.length < text.length := by
  unfold wholeDigits? at read
  split at read
  · simp only [Option.some.injEq, Prod.mk.injEq] at read
    simp [read.2]
  · split at read
    · simp at read
    · rename_i notEmpty
      have isSplit := Option.some.inj read
      have total := length_splitDigits text
      rw [isSplit] at total
      cases digits with
      | nil => exact absurd isSplit (notEmpty after)
      | cons digit digits =>
          simp only [List.length_cons] at total
          omega

/-- Reading a fraction adds nothing. -/
theorem length_of_fractionDigits?
    {text digits after : List Char}
    (read : fractionDigits? text = some (digits, after)) :
    after.length ≤ text.length := by
  unfold fractionDigits? at read
  split at read
  · rename_i rest
    split at read
    · simp at read
    · have total := length_splitDigits rest
      rw [Option.some.inj read] at total
      simp only [List.length_cons] at total ⊢
      omega
  · simp only [Option.some.injEq, Prod.mk.injEq] at read
    simp [read.2]

/-- Reading an exponent adds nothing. -/
theorem length_of_exponent?
    {text after : List Char}
    {exponent : Int}
    (read : exponent? text = some (exponent, after)) :
    after.length ≤ text.length := by
  unfold exponent? at read
  split at read
  · simp only [Option.some.injEq, Prod.mk.injEq] at read
    simp [← read.2]
  · rename_i letter rest
    split at read
    · simp only at read
      split at read
      · simp at read
      · rename_i isSplit
        have total := length_splitDigits (splitSign rest).2
        have signed := length_splitSign rest
        rw [isSplit] at total
        simp only [Option.some.injEq, Prod.mk.injEq] at read
        rw [← read.2]
        simp only [List.length_cons] at total ⊢
        omega
    · simp only [Option.some.injEq, Prod.mk.injEq] at read
      simp [← read.2]

/-- Reading a number without a sign takes at least one digit. -/
theorem length_of_unsigned?
    {negative : Bool}
    {text after : List Char}
    {token : Token}
    (read : unsigned? negative text = some (token, after)) :
    after.length < text.length := by
  unfold unsigned? at read
  split at read
  · simp at read
  · rename_i isWhole
    split at read
    · simp at read
    · rename_i isFraction
      split at read
      · simp at read
      · rename_i isExponent
        simp only [Option.some.injEq, Prod.mk.injEq] at read
        have whole := length_of_wholeDigits? isWhole
        have fraction := length_of_fractionDigits? isFraction
        have exponent := length_of_exponent? isExponent
        rw [← read.2]
        omega

/-- Reading a number takes at least one digit. -/
theorem length_of_number?
    {text after : List Char}
    {token : Token}
    (read : number? text = some (token, after)) :
    after.length < text.length := by
  unfold number? at read
  split at read
  · have shorter := length_of_unsigned? read
    simp only [List.length_cons]
    omega
  · exact length_of_unsigned? read

/-! ## All tokens -/

/-- The token at the start of a text, and the rest. -/
def Token.first? : List Char → Option (Token × List Char)
  | '[' :: rest => some (.openArray, rest)
  | ']' :: rest => some (.closeArray, rest)
  | '\x7b' :: rest => some (.openObject, rest)
  | '\x7d' :: rest => some (.closeObject, rest)
  | ':' :: rest => some (.colon, rest)
  | ',' :: rest => some (.comma, rest)
  | '"' :: rest =>
      (literalCodes? rest).map fun (codes, after) =>
        (.string ((decodeCodes? codes).map String.ofList), after)
  | 'n' :: 'u' :: 'l' :: 'l' :: rest => some (.scalar .null, rest)
  | 't' :: 'r' :: 'u' :: 'e' :: rest => some (.scalar (.bool true), rest)
  | 'f' :: 'a' :: 'l' :: 's' :: 'e' :: rest => some (.scalar (.bool false), rest)
  | text => number? text

/-- Every token takes at least one character, so that cutting a text into tokens ends. -/
theorem Token.length_of_first?
    {text after : List Char}
    {token : Token}
    (read : Token.first? text = some (token, after)) :
    after.length < text.length := by
  unfold Token.first? at read
  split at read
  case h_7 rest =>
    simp only [Option.map_eq_some_iff, Prod.exists, Prod.mk.injEq] at read
    obtain ⟨codes, left, isLiteral, _, rfl⟩ := read
    have shorter := length_of_literalCodes? isLiteral
    simp only [List.length_cons]
    omega
  case h_11 => exact length_of_number? read
  all_goals
    simp only [Option.some.injEq, Prod.mk.injEq] at read
    rw [← read.2]
    simp only [List.length_cons]
    omega

/-- The tokens of a text, or nothing where the text cannot be cut into tokens. -/
def tokens? : List Char → Option (List Token)
  | [] => some []
  | c :: rest =>
      if isSpace c then
        tokens? rest
      else
        match _read : Token.first? (c :: rest) with
        | none => none
        | some (token, after) => (tokens? after).map (token :: ·)
  termination_by text => text.length
  decreasing_by
    · simp
    · exact Token.length_of_first? _read

end Json

end Flowmark
