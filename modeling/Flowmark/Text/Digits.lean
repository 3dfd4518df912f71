namespace Flowmark.Text

/-! # Digits and signs

The parts of which numbers are written: a sign and runs of the digits from `0` to `9`.
-/

/-- The sign that a text may start with, and the rest. -/
def splitSign : List Char → List Char × List Char
  | '+' :: rest => (['+'], rest)
  | '-' :: rest => (['-'], rest)
  | text => ([], text)

/-- The digits from `0` to `9` that a text starts with, and the rest. -/
def splitDigits
    (text : List Char) :
    List Char × List Char :=
  (text.takeWhile Char.isDigit, text.dropWhile Char.isDigit)

/-- The sign and the rest make up the text. -/
theorem splitSign_append
    (text : List Char) :
    (splitSign text).1 ++ (splitSign text).2 = text := by
  unfold splitSign
  split <;> rfl

/-- The digits and the rest make up the text. -/
theorem splitDigits_append
    (text : List Char) :
    (splitDigits text).1 ++ (splitDigits text).2 = text :=
  List.takeWhile_append_dropWhile

/-- The digits of a text that starts with digits and goes on with none. -/
theorem splitDigits_append_of_digits
    {digits rest : List Char}
    (areDigits : ∀ c ∈ digits, c.isDigit = true)
    (stops : ∀ c ∈ rest.head?, c.isDigit = false) :
    splitDigits (digits ++ rest) = (digits, rest) := by
  have restStops : rest.takeWhile Char.isDigit = [] ∧ rest.dropWhile Char.isDigit = rest := by
    cases rest with
    | nil => exact ⟨rfl, rfl⟩
    | cons c rest => simp [stops c (by simp)]
  rw [splitDigits, List.takeWhile_append_of_pos areDigits, List.dropWhile_append_of_pos areDigits,
    restStops.1, restStops.2, List.append_nil]

end Flowmark.Text
