import Flowmark.Proofs.Argument.Grammar
import Flowmark.Proofs.Argument.Respacing

namespace Flowmark

open Text

/-!
# The reading of arguments

The rules of reading say which argument comes next: the longest text of any pattern, and of two
patterns with the same text not the word.  They leave no choice, and the arguments of a text are
those that they read in it, with nothing but blanks between them.  What kind an argument has can be
told from its text alone, so each argument is also what is read in its text alone.
-/

namespace Argument

variable {kind other : Kind} {text : List Char} {argument : Argument}

/-! ## Starts of matching texts -/

/-- No number starts with a quote. -/
theorem number?_cons_of_quote
    {quote : Char}
    (isQuote : quote = '"' ∨ quote = '\'')
    (rest : List Char) :
    number? (quote :: rest) = none := by
  rcases isQuote with rfl | rfl <;>
    simp [number?, splitSign, splitDecimal?, splitDigits]

/-- There is no blank inside a number. -/
theorem solid_of_number?
    (found : number? text = some argument) :
    Solid argument.text := by
  rw [← number?_headWord] at found
  intro c member
  exact solid_headWord text c ((number?_isPrefix found).subset member)

/-- The two kinds of strings. -/
def Kind.IsQuoted
    (kind : Kind) :
    Prop :=
  kind = .doubleQuoted ∨ kind = .singleQuoted

/-- A number or a word has no blanks. -/
theorem solid_of_mem_pattern
    (unquoted : ¬ kind.IsQuoted)
    (isMatch : text ∈ kind.pattern) :
    Solid text := by
  cases kind with
  | doubleQuoted => exact absurd (Or.inl rfl) unquoted
  | singleQuoted => exact absurd (Or.inr rfl) unquoted
  | number => exact solid_of_number? (number?_of_mem_pattern isMatch)
  | word => exact (mem_pattern_word.mp isMatch).2

/-- No match of a pattern starts with a blank. -/
theorem startsSolid_of_mem_pattern
    (isMatch : text ∈ kind.pattern) :
    StartsSolid text := by
  cases kind with
  | doubleQuoted =>
      obtain ⟨inner, _, rfl⟩ := mem_just_mul.mp isMatch
      exact ⟨'"', inner, rfl, by decide⟩
  | singleQuoted =>
      obtain ⟨inner, _, rfl⟩ := mem_just_mul.mp isMatch
      exact ⟨'\'', inner, rfl, by decide⟩
  | number =>
      refine startsSolid_of_solid (solid_of_number? (number?_of_mem_pattern isMatch)) ?_
      rintro rfl
      cases number?_of_mem_pattern isMatch
  | word =>
      obtain ⟨nonempty, solid⟩ := mem_pattern_word.mp isMatch
      exact startsSolid_of_solid solid nonempty

/-- No match of a pattern ends with a blank. -/
theorem endsSolid_of_mem_pattern
    (isMatch : text ∈ kind.pattern) :
    EndsSolid text := by
  by_cases quoted : kind.IsQuoted
  · rcases quoted with rfl | rfl
    · obtain ⟨opening, _, _, ⟨content, _, _, rfl, rfl⟩, rfl⟩ := Language.mem_mul.mp isMatch
      exact ⟨opening ++ content, '"', (List.append_assoc _ _ _).symm, by decide⟩
    · obtain ⟨opening, _, _, ⟨content, _, _, rfl, rfl⟩, rfl⟩ := Language.mem_mul.mp isMatch
      exact ⟨opening ++ content, '\'', (List.append_assoc _ _ _).symm, by decide⟩
  · have nonempty : text ≠ [] := by
      obtain ⟨c, rest, rfl, _⟩ := startsSolid_of_mem_pattern isMatch
      exact List.cons_ne_nil c rest
    exact endsSolid_of_solid (solid_of_mem_pattern quoted isMatch) nonempty

/-- The first character tells the kinds other than words apart. -/
theorem opens_of_mem_pattern
    (notWord : kind ≠ .word)
    (isMatch : text ∈ kind.pattern) :
    (kind = .doubleQuoted ↔ text.head? = some '"') ∧
      (kind = .singleQuoted ↔ text.head? = some '\'') := by
  cases kind with
  | doubleQuoted =>
      obtain ⟨inner, _, rfl⟩ := mem_just_mul.mp isMatch
      simp
  | singleQuoted =>
      obtain ⟨inner, _, rfl⟩ := mem_just_mul.mp isMatch
      simp
  | number =>
      have found := number?_of_mem_pattern isMatch
      obtain ⟨c, rest, rfl, _⟩ := startsSolid_of_mem_pattern isMatch
      have unquoted : ¬ (c = '"' ∨ c = '\'') := by
        intro isQuote
        rw [number?_cons_of_quote isQuote] at found
        cases found
      simpa using unquoted
  | word => exact absurd rfl notWord

/-- A text matches at most one pattern besides that of words. -/
theorem kind_eq_of_mem_patterns
    (notWord : kind ≠ .word)
    (isMatch : text ∈ kind.pattern)
    (otherNotWord : other ≠ .word)
    (isOtherMatch : text ∈ other.pattern) :
    kind = other := by
  have opens := opens_of_mem_pattern notWord isMatch
  have otherOpens := opens_of_mem_pattern otherNotWord isOtherMatch
  cases kind <;> cases other <;> simp_all

/-! ## What is read next -/

/--
Whether an argument is read at the start of a text: it is the longest match of any pattern there,
and no other pattern but that of words matches it.
-/
structure IsNext
    (text : List Char)
    (argument : Argument) :
    Prop where
  isPrefix : argument.text <+: text
  isMatch : argument.text ∈ argument.kind.pattern
  longest : ∀ kind : Kind, ∀ found ∈ kind.pattern,
    found <+: text → found.length ≤ argument.text.length
  preferred : ∀ kind : Kind, argument.text ∈ kind.pattern → kind = argument.kind ∨ kind = .word

namespace IsNext

/-- The rules leave no choice. -/
theorem unique
    {further : Argument}
    (isNext : IsNext text argument)
    (furtherIsNext : IsNext text further) :
    argument = further := by
  have sameText : argument.text = further.text := by
    have notLonger := furtherIsNext.longest _ _ isNext.isMatch isNext.isPrefix
    have notShorter := isNext.longest _ _ furtherIsNext.isMatch furtherIsNext.isPrefix
    exact (List.prefix_of_prefix_length_le isNext.isPrefix furtherIsNext.isPrefix
      notLonger).eq_of_length_le notShorter
  have sameKind : argument.kind = further.kind := by
    have argumentMatches := isNext.isMatch
    have furtherMatches := furtherIsNext.isMatch
    rw [sameText] at argumentMatches
    rw [← sameText] at furtherMatches
    rcases isNext.preferred _ furtherMatches with same | furtherIsWord
    · exact same.symm
    · rcases furtherIsNext.preferred _ argumentMatches with same | isWord
      · exact same
      · rw [isWord, furtherIsWord]
  cases argument
  cases further
  simp_all

/-- An argument that is read at the start of a text is read in its own text alone. -/
theorem alone
    (isNext : IsNext text argument) :
    IsNext argument.text argument where
  isPrefix := List.prefix_rfl
  isMatch := isNext.isMatch
  longest := fun _ _ _ isPrefix => isPrefix.length_le
  preferred := isNext.preferred

/-- The kind of an argument other than a word can be told from its text. -/
theorem kind_eq_iff
    (isNext : IsNext text argument)
    (notWord : kind ≠ .word) :
    argument.kind = kind ↔ argument.text ∈ kind.pattern := by
  constructor
  · rintro rfl
    exact isNext.isMatch
  · intro isMatch
    exact ((isNext.preferred kind isMatch).resolve_right notWord).symm

end IsNext

/-! ## The longest match follows the rules -/

/-- The first argument behind blanks matches the pattern of its kind. -/
theorem mem_pattern_first
    {c : Char}
    (solid : ¬ isBlank c = true)
    (rest : List Char) :
    (first (c :: rest)).text ∈ (first (c :: rest)).kind.pattern := by
  rcases first_eq_or (c :: rest) with isWord | isNumber | isSingle | isDouble
  · rw [isWord]
    exact mem_pattern_word.mpr ⟨by simp [word, headWord, solid], solid_headWord _⟩
  · obtain ⟨sameKind, isMatch⟩ := mem_pattern_of_number? isNumber
    rwa [sameKind]
  · obtain ⟨sameKind, isMatch⟩ := mem_pattern_of_singleQuoted? isSingle
    rwa [sameKind]
  · obtain ⟨sameKind, isMatch⟩ := mem_pattern_of_doubleQuoted? isDouble
    rwa [sameKind]

/-- No match of a pattern at the head of a text is longer than the first argument. -/
theorem length_le_first_of_mem_pattern
    {found : List Char}
    (isMatch : found ∈ kind.pattern)
    (isPrefix : found <+: text) :
    found.length ≤ (first text).text.length := by
  by_cases quoted : kind.IsQuoted
  · obtain ⟨after, rfl⟩ := isPrefix
    rcases quoted with rfl | rfl
    · exact length_le_first_of_doubleQuoted? (doubleQuoted?_append_of_mem isMatch after)
    · exact length_le_first_of_singleQuoted? (singleQuoted?_append_of_mem isMatch after)
  · have inWord := isPrefix_headWord (solid_of_mem_pattern quoted isMatch) isPrefix
    exact Nat.le_trans inWord.length_le (length_headWord_le_first text)

/-- A word is only taken where a match of another kind is shorter. -/
theorem shorter_of_kind_prefer
    {best : Argument}
    {further : Option Argument}
    (notWord : ∀ found ∈ further, found.kind ≠ .word)
    (isWord : (best.prefer further).kind = .word) :
    best.prefer further = best ∧
      ∀ found ∈ further, found.text.length < best.text.length := by
  cases further with
  | none => simp [prefer]
  | some found =>
      have kept : ¬ best.text.length ≤ found.text.length := by
        intro atLeast
        simp only [prefer, atLeast, if_true] at isWord
        exact notWord found rfl isWord
      simpa [prefer, kept] using Nat.lt_of_not_le kept

/-- The first argument is a word only where every other pattern finds less. -/
theorem shorter_of_kind_first
    (isWord : (first text).kind = .word) :
    first text = word text ∧
      (∀ found ∈ number? text, found.text.length < (word text).text.length) ∧
        (∀ found ∈ singleQuoted? text, found.text.length < (word text).text.length) ∧
          ∀ found ∈ doubleQuoted? text, found.text.length < (word text).text.length := by
  have numberNotWord : ∀ found ∈ number? text, found.kind ≠ .word := by
    intro found isFound
    simp [(mem_pattern_of_number? isFound).1]
  have singleNotWord : ∀ found ∈ singleQuoted? text, found.kind ≠ .word := by
    intro found isFound
    simp [(mem_pattern_of_singleQuoted? isFound).1]
  have doubleNotWord : ∀ found ∈ doubleQuoted? text, found.kind ≠ .word := by
    intro found isFound
    simp [(mem_pattern_of_doubleQuoted? isFound).1]
  unfold first at isWord ⊢
  obtain ⟨notDouble, doubleShorter⟩ := shorter_of_kind_prefer doubleNotWord isWord
  rw [notDouble] at isWord ⊢
  obtain ⟨notSingle, singleShorter⟩ := shorter_of_kind_prefer singleNotWord isWord
  rw [notSingle] at isWord doubleShorter ⊢
  obtain ⟨notNumber, numberShorter⟩ := shorter_of_kind_prefer numberNotWord isWord
  rw [notNumber] at doubleShorter singleShorter ⊢
  exact ⟨rfl, numberShorter, singleShorter, doubleShorter⟩

/-- A first argument that is a word matches no other pattern. -/
theorem kind_eq_word_of_mem_pattern_first
    (isWord : (first text).kind = .word)
    (isMatch : (first text).text ∈ kind.pattern) :
    kind = .word := by
  obtain ⟨isFirstWord, numberShorter, singleShorter, doubleShorter⟩ := shorter_of_kind_first isWord
  rw [isFirstWord] at isMatch
  have starts : (word text).text ++ afterHeadWord text = text := headWord_append_afterHeadWord text
  cases kind with
  | doubleQuoted =>
      have found := doubleQuoted?_append_of_mem isMatch (afterHeadWord text)
      rw [starts] at found
      exact absurd (doubleShorter _ found) (Nat.lt_irrefl _)
  | singleQuoted =>
      have found := singleQuoted?_append_of_mem isMatch (afterHeadWord text)
      rw [starts] at found
      exact absurd (singleShorter _ found) (Nat.lt_irrefl _)
  | number =>
      have found := number?_of_mem_pattern isMatch
      rw [show (word text).text = headWord text from rfl, number?_headWord] at found
      exact absurd (numberShorter _ found) (Nat.lt_irrefl _)
  | word => rfl

/-- The longest match is what is read next. -/
theorem isNext_first
    {c : Char}
    (solid : ¬ isBlank c = true)
    (rest : List Char) :
    IsNext (c :: rest) (first (c :: rest)) where
  isPrefix := first_isPrefix (c :: rest)
  isMatch := mem_pattern_first solid rest
  longest := fun _ _ isMatch isPrefix => length_le_first_of_mem_pattern isMatch isPrefix
  preferred := by
    intro kind isMatch
    by_cases isWord : kind = .word
    · exact Or.inr isWord
    · have firstNotWord : (first (c :: rest)).kind ≠ .word :=
        fun isFirstWord => isWord (kind_eq_word_of_mem_pattern_first isFirstWord isMatch)
      exact Or.inl
        (kind_eq_of_mem_patterns isWord isMatch firstNotWord (mem_pattern_first solid rest))

/-! ## The arguments of a text -/

/--
The arguments that the rules read in a text.  Blanks may stand in front of an argument, and must do
so unless the argument before it is a string in quotes with a blank inside.
-/
inductive Reads : List Char → List Argument → Prop
  | nil {text : List Char} (blank : ∀ c ∈ text, isBlank c = true) : Reads text []
  | cons {lead rest : List Char} {argument : Argument} {arguments : List Argument}
      (blank : ∀ c ∈ lead, isBlank c = true)
      (next : IsNext (argument.text ++ rest) argument)
      (apart : Detached rest ∨
        argument.kind.IsQuoted ∧ ∃ c ∈ argument.text, isBlank c = true)
      (later : Reads rest arguments) :
      Reads (lead ++ (argument.text ++ rest)) (argument :: arguments)

/-- A blank in front changes nothing about what is read. -/
theorem Reads.of_blank
    {arguments : List Argument}
    {c : Char}
    (blank : isBlank c = true)
    (reads : Reads text arguments) :
    Reads (c :: text) arguments := by
  cases reads with
  | nil textBlank => exact .nil (by simpa [blank] using textBlank)
  | cons leadBlank next apart later =>
      rw [← List.cons_append]
      exact .cons (by simpa [blank] using leadBlank) next apart later

/-- An argument goes on up to a blank, or it is a string in quotes with a blank inside. -/
theorem apart_first
    {c : Char}
    (solid : ¬ isBlank c = true)
    {before rest : List Char}
    (shape : (first (c :: before)).text ++ rest = c :: before) :
    Detached rest ∨
      (first (c :: before)).kind.IsQuoted ∧
        ∃ d ∈ (first (c :: before)).text, isBlank d = true := by
  rcases first_reaches (c :: before) with isWord | ⟨_, _, d, beyond, _, blank, _, reaches⟩
  · rw [isWord] at shape
    have isAfter : rest = afterHeadWord (c :: before) :=
      List.append_cancel_left (shape.trans (headWord_append_afterHeadWord _).symm)
    rw [isAfter]
    exact Or.inl (detached_afterHeadWord _)
  · have hasBlank : d ∈ (first (c :: before)).text := by simp [reaches]
    refine Or.inr ⟨?_, d, hasBlank, blank⟩
    by_contra unquoted
    have notBlank := solid_of_mem_pattern unquoted (mem_pattern_first solid before) d hasBlank
    rw [blank] at notBlank
    cases notBlank

/-- The arguments of a text are what it reads as. -/
theorem reads_all
    (text : List Char) :
    Reads text (all text) := by
  fun_induction all text with
  | case1 => exact .nil (List.forall_mem_nil _)
  | case2 c rest blank inductionHypothesis => exact inductionHypothesis.of_blank blank
  | case3 c rest solid inductionHypothesis =>
      have shape : (first (c :: rest)).text ++
          (c :: rest).drop (first (c :: rest)).text.length = c :: rest :=
        List.prefix_iff_eq_append.mp (first_isPrefix (c :: rest))
      have next := isNext_first solid rest
      have apart := apart_first solid shape
      generalize (c :: rest).drop (first (c :: rest)).text.length = after at *
      generalize first (c :: rest) = argument at *
      rw [← shape] at next ⊢
      exact .cons (List.forall_mem_nil _) next apart inductionHypothesis

/-- Leading blanks change nothing about the arguments. -/
theorem all_append_of_blank
    {lead : List Char}
    (blank : ∀ c ∈ lead, isBlank c = true)
    (rest : List Char) :
    all (lead ++ rest) = all rest := by
  induction lead with
  | nil => rfl
  | cons c lead inductionHypothesis =>
      rw [List.forall_mem_cons] at blank
      rw [List.cons_append, all_cons_of_blank blank.1, inductionHypothesis blank.2]

/-- The rules read nothing else in a text than its arguments. -/
theorem Reads.eq_all
    {arguments : List Argument}
    (reads : Reads text arguments) :
    arguments = all text := by
  induction reads with
  | nil blank =>
      have allBlank := all_append_of_blank blank []
      rw [List.append_nil, all_nil] at allBlank
      exact allBlank.symm
  | cons blank next _ _ inductionHypothesis =>
      obtain ⟨c, content, starts, solid⟩ := startsSolid_of_mem_pattern next.isMatch
      rw [all_append_of_blank blank, starts, List.cons_append, all_cons_of_solid (by simp [solid])]
      rw [starts, List.cons_append] at next
      rw [(isNext_first (by simp [solid]) _).unique next, starts, ← List.cons_append,
        List.drop_left, inductionHypothesis]

/--
What is true of an argument wherever it is read: it has no blanks at its ends, and none inside
unless it is a string in quotes.  It is of a kind other than a word exactly when its text matches
the pattern of that kind.  In its text alone just the argument itself is read.
-/
structure IsSelfContained
    (argument : Argument) :
    Prop where
  startsSolid : StartsSolid argument.text
  endsSolid : EndsSolid argument.text
  solid : ¬ argument.kind.IsQuoted → Solid argument.text
  kind_iff : ∀ kind, kind ≠ .word → (argument.kind = kind ↔ argument.text ∈ kind.pattern)
  alone : all argument.text = [argument]

/-- An argument that comes next in some text is self-contained. -/
theorem IsNext.isSelfContained
    (isNext : IsNext text argument) :
    IsSelfContained argument where
  startsSolid := startsSolid_of_mem_pattern isNext.isMatch
  endsSolid := endsSolid_of_mem_pattern isNext.isMatch
  solid := fun unquoted => solid_of_mem_pattern unquoted isNext.isMatch
  kind_iff := fun _ notWord => isNext.kind_eq_iff notWord
  alone := by
    have next : IsNext (argument.text ++ []) argument := by
      rw [List.append_nil]
      exact isNext.alone
    have reads : Reads ([] ++ (argument.text ++ [])) [argument] :=
      .cons (List.forall_mem_nil _) next (Or.inl detached_nil) (.nil (List.forall_mem_nil _))
    simpa using reads.eq_all.symm

/-- Every argument that a text reads as is self-contained. -/
theorem Reads.isSelfContained
    {arguments : List Argument}
    (reads : Reads text arguments) :
    ∀ argument ∈ arguments, IsSelfContained argument := by
  induction reads with
  | nil => simp
  | cons _ next _ _ inductionHypothesis =>
      rw [List.forall_mem_cons]
      exact ⟨next.isSelfContained, inductionHypothesis⟩

/--
Nothing of a text is lost: it is the texts of its arguments in order with only blanks around and
between them.  Each argument is what the rules read at its place, and it is the same in its text
alone.
-/
theorem all_losesNothing
    (text : List Char) :
    Reads text (all text) ∧ ∀ argument ∈ all text, IsSelfContained argument :=
  ⟨reads_all text, (reads_all text).isSelfContained⟩

/-! ## Arguments joined by single blanks -/

/--
Joining the arguments of a text of one line by single blanks gives a normal form.  The same
arguments are read in it again, and texts of one line with other arguments have another one.
-/
theorem all_intercalate_all
    {text : List Char}
    (oneLine : '\n' ∉ text) :
    all ([' '].intercalate ((all text).map Argument.text)) = all text ∧
      ∀ other, '\n' ∉ other →
        [' '].intercalate ((all other).map Argument.text) =
            [' '].intercalate ((all text).map Argument.text) →
          all other = all text := by
  have readsAgain : all ([' '].intercalate ((all text).map Argument.text)) = all text :=
    all_joined_all oneLine
  refine ⟨readsAgain, ?_⟩
  intro other otherOneLine sameForm
  calc
    all other = all ([' '].intercalate ((all other).map Argument.text)) :=
      (all_joined_all otherOneLine).symm
    _ = all ([' '].intercalate ((all text).map Argument.text)) := by rw [sameForm]
    _ = all text := readsAgain

/-- A closed string with a word glued to it, and a quote that stays open behind a backslash. -/
theorem all_intercalate_all_glued :
    ∃ text,
      '\n' ∉ text ∧
        [' '].intercalate ((all text).map Argument.text) = "'a \" b' c \"d\\ 1e5 f".toList ∧
          all ([' '].intercalate ((all text).map Argument.text)) = all text :=
  ⟨"  'a \" b'c\t\"d\\\u00a0 1e5\u3000f".toList, by decide, by decide +kernel,
    (all_intercalate_all (by decide)).1⟩

/-- A line feed keeps a quote open behind a backslash, where a blank does not. -/
example :
    all "\"a\\\nb\"".toList = [⟨.word, "\"a\\".toList⟩, ⟨.word, "b\"".toList⟩] ∧
      all "\"a\\ b\"".toList = [⟨.doubleQuoted, "\"a\\ b\"".toList⟩] := by
  decide +kernel

end Argument

end Flowmark
