import Flowmark.Argument
import Flowmark.Proofs.Text.Words

namespace Flowmark

open Text

/-!
# What the argument patterns match

Every pattern matches a beginning of the text.  A number lies inside the first word.  A string ends
with its quote, and whether it closes does not depend on what stands behind the closing quote.  So
the longest match is the first word, or a string that reaches beyond the first word.
-/

namespace Text

/-- A sign does not reach into a text that is detached from what stands before it. -/
theorem splitSign_append_detached
    {rest : List Char}
    (detached : Detached rest)
    (text : List Char) :
    splitSign (text ++ rest) = ((splitSign text).1, (splitSign text).2 ++ rest) := by
  cases text with
  | nil =>
      cases rest with
      | nil => rfl
      | cons c rest =>
          have blank : isBlank c = true := detached c rfl
          have notPlus : c ≠ '+' := ne_of_isBlank blank (by decide)
          have notMinus : c ≠ '-' := ne_of_isBlank blank (by decide)
          simp [splitSign, notPlus, notMinus]
  | cons c text =>
      by_cases plus : c = '+'
      · subst plus
        rfl
      · by_cases minus : c = '-'
        · subst minus
          rfl
        · simp [splitSign, plus, minus]

/-- Digits do not reach into a detached text. -/
theorem splitDigits_append_detached
    {rest : List Char}
    (detached : Detached rest)
    (text : List Char) :
    splitDigits (text ++ rest) = ((splitDigits text).1, (splitDigits text).2 ++ rest) := by
  induction text with
  | nil =>
      cases rest with
      | nil => rfl
      | cons c rest =>
          have notDigit : c.isDigit = false := isDigit_of_isBlank (detached c rfl)
          simp [splitDigits, notDigit]
  | cons c text inductionHypothesis =>
      simp only [splitDigits, Prod.mk.injEq] at inductionHypothesis
      cases digit : c.isDigit <;> simp [splitDigits, digit, inductionHypothesis]

end Text

namespace Argument

/-! ## Numbers -/

/-- A decimal does not reach into a detached text. -/
theorem splitDecimal?_append_detached
    {rest : List Char}
    (detached : Detached rest)
    (text : List Char) :
    splitDecimal? (text ++ rest) =
      (splitDecimal? text).map fun (decimal, after) => (decimal, after ++ rest) := by
  have noPoint : ∀ after : List Char, rest ≠ '.' :: after := by
    rintro after rfl
    exact absurd (detached '.' rfl) (by decide)
  unfold splitDecimal?
  rw [splitDigits_append_detached detached]
  rcases splitDigits text with ⟨digits, after⟩
  cases after with
  | nil =>
      -- The rows of the match are told apart by `noPoint`, which `simp` takes from the context.
      cases rest <;> cases digits <;> simp
  | cons c after =>
      by_cases point : c = '.'
      · subst point
        cases digits with
        | nil =>
            simp only [List.cons_append, splitDigits_append_detached detached]
            rcases splitDigits after with ⟨fraction, beyond⟩
            cases fraction <;> simp
        | cons digit digits => simp [splitDigits_append_detached detached]
      · cases digits <;> simp [point]

/-- An exponent does not reach into a detached text. -/
theorem exponent_append_detached
    {rest : List Char}
    (detached : Detached rest)
    (text : List Char) :
    exponent (text ++ rest) = exponent text := by
  cases text with
  | nil =>
      cases rest with
      | nil => rfl
      | cons c rest =>
          have blank : isBlank c = true := detached c rfl
          have notLower : c ≠ 'e' := ne_of_isBlank blank (by decide)
          have notUpper : c ≠ 'E' := ne_of_isBlank blank (by decide)
          simp [exponent, notLower, notUpper]
  | cons c text =>
      simp only [List.cons_append, exponent, splitSign_append_detached detached,
        splitDigits_append_detached detached]
      rcases splitDigits (splitSign text).2 with ⟨digits, after⟩
      cases digits <;> rfl

/-- A number lies inside the first word, so what follows the first word does not matter. -/
theorem number?_append_detached
    {rest : List Char}
    (detached : Detached rest)
    (text : List Char) :
    number? (text ++ rest) = number? text := by
  simp only [number?, splitSign_append_detached detached, splitDecimal?_append_detached detached,
    Option.map_map]
  congr 1
  funext split
  simp [exponent_append_detached detached]

/-- The first word decides whether a text starts with a number, and with which. -/
theorem number?_headWord
    (text : List Char) :
    number? (headWord text) = number? text := by
  have inWord := number?_append_detached (detached_afterHeadWord text) (headWord text)
  rw [headWord_append_afterHeadWord] at inWord
  exact inWord.symm

/-- Splitting off a decimal loses nothing. -/
theorem append_of_splitDecimal?
    {text decimal after : List Char}
    (split : splitDecimal? text = some (decimal, after)) :
    decimal ++ after = text := by
  have whole := splitDigits_append text
  unfold splitDecimal? at split
  split at split
  · rename_i rest digits
    rw [digits] at whole
    have fraction := splitDigits_append rest
    split at split
    · cases split
    · rename_i fractionDigits beyond _ inner
      cases split
      rw [inner] at fraction
      simp [← whole, ← fraction]
  · cases split
  · rename_i digits rest _ shape
    rw [shape] at whole
    have fraction := splitDigits_append rest
    cases split
    rw [← whole, ← fraction]
    simp
  · rename_i shape
    cases split
    rw [shape] at whole
    exact whole

/-- An exponent is split off at the head of the text. -/
theorem exponent_isPrefix
    (text : List Char) :
    exponent text <+: text := by
  cases text with
  | nil => exact List.prefix_rfl
  | cons letter rest =>
      by_cases isExponent : letter = 'e' ∨ letter = 'E'
      · have signed := splitSign_append rest
        have digits := splitDigits_append (splitSign rest).2
        simp only [exponent, isExponent, if_true]
        split
        · exact List.nil_prefix
        · rename_i taken beyond _ shape
          rw [shape] at digits
          have joined : (splitSign rest).1 ++ (taken ++ beyond) = rest := by
            rw [digits, signed]
          exact ⟨beyond, by simpa using joined⟩
      · simp only [exponent, isExponent, if_false]
        exact List.nil_prefix

/-- A number is read at the head of the text. -/
theorem number?_isPrefix
    {text : List Char}
    {argument : Argument}
    (found : number? text = some argument) :
    argument.text <+: text := by
  simp only [number?, Option.map_eq_some_iff, Prod.exists] at found
  obtain ⟨decimal, after, split, rfl⟩ := found
  have signed := splitSign_append text
  have unsigned := append_of_splitDecimal? split
  obtain ⟨beyond, exponentShape⟩ := exponent_isPrefix after
  refine ⟨beyond, ?_⟩
  simp only [List.append_assoc, exponentShape, unsigned, signed]

/-! ## Strings -/

/--
What a search for a closing quote finds: a beginning of the text that ends with the quote, and that
is found again whatever stands behind it.
-/
structure ClosesAt
    (close? : List Char → Option (List Char))
    (quote : Char)
    (text inner : List Char) :
    Prop where
  isPrefix : inner <+: text
  endsWithQuote : ∃ content, inner = content ++ [quote]
  stable : ∀ after, close? (inner ++ after) = some inner

/-- A closing double quote that was found is where the search stops. -/
theorem closesAt_of_closeDoubleQuote?
    {text inner : List Char}
    (closed : closeDoubleQuote? text = some inner) :
    ClosesAt closeDoubleQuote? '"' text inner := by
  fun_induction closeDoubleQuote? text generalizing inner with
  | case1 => cases closed
  | case2 rest =>
      cases closed
      exact {
        isPrefix := ⟨rest, rfl⟩
        endsWithQuote := ⟨[], rfl⟩
        stable := fun after => rfl }
  | case3 rest => cases closed
  | case4 c rest notFeed inductionHypothesis =>
      obtain ⟨found, foundCloses, rfl⟩ := Option.map_eq_some_iff.mp closed
      have inside := inductionHypothesis foundCloses
      obtain ⟨content, shape⟩ := inside.endsWithQuote
      exact {
        isPrefix := by simpa using inside.isPrefix
        endsWithQuote := ⟨'\\' :: c :: content, by simp [shape]⟩
        stable := by
          intro after
          simp [closeDoubleQuote?, notFeed, inside.stable after] }
  | case5 rest notEscape => cases closed
  | case6 c rest notQuote notEscape notBackslash inductionHypothesis =>
      obtain ⟨found, foundCloses, rfl⟩ := Option.map_eq_some_iff.mp closed
      have inside := inductionHypothesis foundCloses
      obtain ⟨content, shape⟩ := inside.endsWithQuote
      exact {
        isPrefix := by simpa using inside.isPrefix
        endsWithQuote := ⟨c :: content, by simp [shape]⟩
        stable := by
          intro after
          simp [closeDoubleQuote?, notBackslash, inside.stable after] }

/-- A closing single quote that was found is where the search stops. -/
theorem closesAt_of_closeSingleQuote?
    {text inner : List Char}
    (closed : closeSingleQuote? text = some inner) :
    ClosesAt closeSingleQuote? '\'' text inner := by
  induction text generalizing inner with
  | nil => cases closed
  | cons c rest inductionHypothesis =>
      unfold closeSingleQuote? at closed
      split at closed
      · rename_i isQuote
        cases closed
        exact {
          isPrefix := ⟨rest, by simp [isQuote]⟩
          endsWithQuote := ⟨[], rfl⟩
          stable := fun after => rfl }
      · rename_i notQuote
        obtain ⟨found, foundCloses, rfl⟩ := Option.map_eq_some_iff.mp closed
        have inside := inductionHypothesis foundCloses
        obtain ⟨content, shape⟩ := inside.endsWithQuote
        exact {
          isPrefix := by simpa using inside.isPrefix
          endsWithQuote := ⟨c :: content, by simp [shape]⟩
          stable := by
            intro after
            simp [closeSingleQuote?, notQuote, inside.stable after] }

/-- A double-quoted argument is its opening quote and what the search for the closing one gives. -/
theorem shape_of_doubleQuoted?
    {text : List Char}
    {argument : Argument}
    (found : doubleQuoted? text = some argument) :
    ∃ rest inner,
      text = '"' :: rest ∧
        closeDoubleQuote? rest = some inner ∧
        argument = ⟨.doubleQuoted, '"' :: inner⟩ := by
  unfold doubleQuoted? at found
  split at found
  · rename_i rest
    obtain ⟨inner, closed, rfl⟩ := Option.map_eq_some_iff.mp found
    exact ⟨rest, inner, rfl, closed, rfl⟩
  · cases found

/-- A single-quoted argument is its opening quote and what the search for the closing one gives. -/
theorem shape_of_singleQuoted?
    {text : List Char}
    {argument : Argument}
    (found : singleQuoted? text = some argument) :
    ∃ rest inner,
      text = '\'' :: rest ∧
        closeSingleQuote? rest = some inner ∧
        argument = ⟨.singleQuoted, '\'' :: inner⟩ := by
  unfold singleQuoted? at found
  split at found
  · rename_i rest
    obtain ⟨inner, closed, rfl⟩ := Option.map_eq_some_iff.mp found
    exact ⟨rest, inner, rfl, closed, rfl⟩
  · cases found

/-! ## The longest match -/

/-- The preferred argument is one of the two that were compared. -/
theorem prefer_eq_or
    (best : Argument)
    (further : Option Argument) :
    best.prefer further = best ∨ further = some (best.prefer further) := by
  cases further with
  | none => exact Or.inl rfl
  | some argument =>
      by_cases atLeast : best.text.length ≤ argument.text.length
      · simp [prefer, atLeast]
      · simp [prefer, atLeast]

/-- The preferred argument is no shorter than the further one. -/
theorem length_le_prefer_some
    (best further : Argument) :
    further.text.length ≤ (best.prefer (some further)).text.length := by
  by_cases atLeast : best.text.length ≤ further.text.length
  · simp [prefer, atLeast]
  · simp only [prefer, atLeast, if_false]
    omega

/-- The longest match is made by one of the four patterns. -/
theorem first_eq_or
    (text : List Char) :
    first text = word text ∨
      number? text = some (first text) ∨
      singleQuoted? text = some (first text) ∨
      doubleQuoted? text = some (first text) := by
  unfold first
  rcases prefer_eq_or (((word text).prefer (number? text)).prefer (singleQuoted? text))
    (doubleQuoted? text) with notDouble | double
  · rw [notDouble]
    rcases prefer_eq_or ((word text).prefer (number? text)) (singleQuoted? text) with
      notSingle | single
    · rw [notSingle]
      rcases prefer_eq_or (word text) (number? text) with notNumber | number
      · exact Or.inl notNumber
      · exact Or.inr (Or.inl number)
    · exact Or.inr (Or.inr (Or.inl single))
  · exact Or.inr (Or.inr (Or.inr double))

/-- The first argument is no shorter than a double-quoted one at its place. -/
theorem length_le_first_of_doubleQuoted?
    {text : List Char}
    {argument : Argument}
    (found : doubleQuoted? text = some argument) :
    argument.text.length ≤ (first text).text.length := by
  unfold first
  rw [found]
  exact length_le_prefer_some _ _

/-- The first argument is no shorter than a single-quoted one at its place. -/
theorem length_le_first_of_singleQuoted?
    {text : List Char}
    {argument : Argument}
    (found : singleQuoted? text = some argument) :
    argument.text.length ≤ (first text).text.length := by
  unfold first
  rw [found]
  exact Nat.le_trans (length_le_prefer_some _ _) (length_le_prefer _ _)

/-- The first argument is read at the head of the text. -/
theorem first_isPrefix
    (text : List Char) :
    (first text).text <+: text := by
  rcases first_eq_or text with isWord | isNumber | isSingle | isDouble
  · rw [isWord]
    exact ⟨afterHeadWord text, headWord_append_afterHeadWord text⟩
  · exact number?_isPrefix isNumber
  · obtain ⟨rest, inner, rfl, closed, shape⟩ := shape_of_singleQuoted? isSingle
    rw [shape]
    exact List.cons_prefix_cons.mpr ⟨rfl, (closesAt_of_closeSingleQuote? closed).isPrefix⟩
  · obtain ⟨rest, inner, rfl, closed, shape⟩ := shape_of_doubleQuoted? isDouble
    rw [shape]
    exact List.cons_prefix_cons.mpr ⟨rfl, (closesAt_of_closeDoubleQuote? closed).isPrefix⟩

/--
The longest match is the first word, or it is a string in quotes that goes on with a blank behind
the first word.
-/
theorem first_reaches
    (text : List Char) :
    (first text).text = headWord text ∨
      ∃ quote content c beyond,
        (quote = '"' ∨ quote = '\'') ∧
          isBlank c = true ∧
          (first text).text = quote :: (content ++ [quote]) ∧
          (first text).text = headWord text ++ c :: beyond := by
  obtain ⟨beyond, atLeastWord⟩ : ∃ beyond, (first text).text = headWord text ++ beyond := by
    have wordPrefix : headWord text <+: text :=
      ⟨afterHeadWord text, headWord_append_afterHeadWord text⟩
    obtain ⟨beyond, shape⟩ := List.prefix_of_prefix_length_le wordPrefix (first_isPrefix text)
      (length_headWord_le_first text)
    exact ⟨beyond, shape.symm⟩
  cases beyond with
  | nil => exact Or.inl (by simpa using atLeastWord)
  | cons c beyond =>
      have blank : isBlank c = true := by
        obtain ⟨after, whole⟩ := first_isPrefix text
        have parts := headWord_append_afterHeadWord text
        rw [atLeastWord, List.append_assoc] at whole
        have tail : afterHeadWord text = c :: beyond ++ after :=
          List.append_cancel_left (parts.trans whole.symm)
        exact detached_afterHeadWord text c (by simp [tail])
      have longer : (headWord text).length < (first text).text.length := by
        simp [atLeastWord]
      refine Or.inr ?_
      -- Words and numbers end at the first blank, so only a quoted text reaches behind it.
      rcases first_eq_or text with isWord | isNumber | isSingle | isDouble
      · rw [isWord] at longer
        exact absurd longer (Nat.lt_irrefl _)
      · rw [← number?_headWord] at isNumber
        have inWord := (number?_isPrefix isNumber).length_le
        omega
      · obtain ⟨rest, inner, _, closed, shape⟩ := shape_of_singleQuoted? isSingle
        obtain ⟨content, ends⟩ := (closesAt_of_closeSingleQuote? closed).endsWithQuote
        exact ⟨'\'', content, c, beyond, Or.inr rfl, blank, by rw [shape, ends], atLeastWord⟩
      · obtain ⟨rest, inner, _, closed, shape⟩ := shape_of_doubleQuoted? isDouble
        obtain ⟨content, ends⟩ := (closesAt_of_closeDoubleQuote? closed).endsWithQuote
        exact ⟨'"', content, c, beyond, Or.inl rfl, blank, by rw [shape, ends], atLeastWord⟩

end Argument

end Flowmark
