import Flowmark.Text.Blank
import Flowmark.Text.Digits

namespace Flowmark

open Text

/-! # Arguments

The text after a keyword is a list of arguments separated by blanks.  At each place the longest of
four patterns is taken: a string in double quotes, a string in single quotes, a number, or a word,
which is a run without blanks.  Of equally long matches a string or a number is preferred to a
word.  So a quote that is not closed is part of a word, and a string may be followed directly by
another argument.
-/

/-- The kinds of arguments. -/
inductive Argument.Kind where
  | doubleQuoted
  | singleQuoted
  | number
  | word
  deriving Repr, DecidableEq

/-- An argument with its text as written, quotes included. -/
structure Argument where
  kind : Argument.Kind
  text : List Char
  deriving Repr, DecidableEq

namespace Argument

/--
The rest of a string in double quotes, after its opening quote and up to its closing one.  A
backslash takes the character after it along, which may be anything but a line feed.
-/
def closeDoubleQuote? : List Char → Option (List Char)
  | [] => none
  | '"' :: _ => some ['"']
  | '\\' :: c :: rest =>
      if c = '\n' then none else (closeDoubleQuote? rest).map ('\\' :: c :: ·)
  | c :: rest => if c = '\\' then none else (closeDoubleQuote? rest).map (c :: ·)

/-- The string in double quotes at the start of a text. -/
def doubleQuoted? : List Char → Option Argument
  | '"' :: rest => (closeDoubleQuote? rest).map fun inner => ⟨.doubleQuoted, '"' :: inner⟩
  | _ => none

/-- The rest of a string in single quotes, after its opening quote and up to its closing one. -/
def closeSingleQuote? : List Char → Option (List Char)
  | [] => none
  | c :: rest => if c = '\'' then some ['\''] else (closeSingleQuote? rest).map (c :: ·)

/-- The string in single quotes at the start of a text. -/
def singleQuoted? : List Char → Option Argument
  | '\'' :: rest => (closeSingleQuote? rest).map fun inner => ⟨.singleQuoted, '\'' :: inner⟩
  | _ => none

/--
The decimal digits at the start of a text with a point before, among or after them, and the rest.
At least one digit is required.
-/
def splitDecimal?
    (text : List Char) :
    Option (List Char × List Char) :=
  match splitDigits text with
  | ([], '.' :: rest) =>
      match splitDigits rest with
      | ([], _) => none
      | (fraction, rest) => some ('.' :: fraction, rest)
  | ([], _) => none
  | (whole, '.' :: rest) =>
      let (fraction, rest) := splitDigits rest
      some (whole ++ '.' :: fraction, rest)
  | (whole, rest) => some (whole, rest)

/-- The exponent at the start of a text, or nothing where no digit follows its letter and sign. -/
def exponent : List Char → List Char
  | [] => []
  | letter :: rest =>
      if letter = 'e' ∨ letter = 'E' then
        let (sign, rest) := splitSign rest
        match splitDigits rest with
        | ([], _) => []
        | (digits, _) => letter :: sign ++ digits
      else
        []

/-- The number at the start of a text, as long as possible. -/
def number?
    (text : List Char) :
    Option Argument :=
  let (sign, unsigned) := splitSign text
  (splitDecimal? unsigned).map fun (decimal, rest) =>
    ⟨.number, sign ++ decimal ++ exponent rest⟩

/-- The run without blanks at the start of a text. -/
def word
    (text : List Char) :
    Argument where
  kind := .word
  text := headWord text

/-- The longer of a known match and a further one; the further one is preferred on a tie. -/
def prefer
    (best : Argument) :
    Option Argument → Argument
  | none => best
  | some further => if best.text.length ≤ further.text.length then further else best

/-- The longest match at the start of a text. -/
def first
    (text : List Char) :
    Argument :=
  (((word text).prefer (number? text)).prefer (singleQuoted? text)).prefer (doubleQuoted? text)

/-- A further match never makes the match shorter. -/
theorem length_le_prefer
    (best : Argument)
    (further : Option Argument) :
    best.text.length ≤ (best.prefer further).text.length := by
  unfold prefer
  split
  · exact Nat.le_refl _
  · split
    · assumption
    · exact Nat.le_refl _

/-- The longest match is at least as long as the word. -/
theorem length_headWord_le_first
    (text : List Char) :
    (headWord text).length ≤ (first text).text.length :=
  Nat.le_trans
    (length_le_prefer (word text) (number? text))
    (Nat.le_trans (length_le_prefer _ (singleQuoted? text)) (length_le_prefer _ _))

/-- Where a text starts without a blank, the longest match is not empty. -/
theorem first_length_pos
    {c : Char}
    {rest : List Char}
    (solid : ¬ isBlank c = true) :
    0 < (first (c :: rest)).text.length := by
  apply Nat.lt_of_lt_of_le _ (length_headWord_le_first (c :: rest))
  simp [headWord, solid]

/-- The arguments of a text, in order. -/
def all : List Char → List Argument
  | [] => []
  | c :: rest =>
      if _blank : isBlank c = true then
        all rest
      else
        first (c :: rest) :: all ((c :: rest).drop (first (c :: rest)).text.length)
  termination_by text => text.length
  decreasing_by
    · simp
    · have positive : 0 < (first (c :: rest)).text.length := first_length_pos _blank
      simp only [List.length_drop, List.length_cons]
      omega

end Argument

end Flowmark
