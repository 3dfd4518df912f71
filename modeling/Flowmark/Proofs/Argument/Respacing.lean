import Flowmark.Proofs.Argument.Pattern

namespace Flowmark

open Text

/-!
# Arguments joined again by single blanks

Joining the arguments of a text by single blanks changes nothing but blanks: runs of blanks shrink
to one, and a blank comes between a string in quotes and what is glued to it.  A reading of the
text character by character that starts afresh at every blank and at every quote does not notice
the difference.  The searches for a closing quote are such readings, and so the joined text has the
same arguments again.
-/

namespace Argument

/-- The texts of arguments joined by single blanks. -/
def joined
    (arguments : List Argument) :
    List Char :=
  [' '].intercalate (arguments.map text)

/-- The texts of arguments, each with a single blank in front. -/
def trailing : List Argument → List Char
  | [] => []
  | argument :: rest => ' ' :: joined (argument :: rest)

/-- Joined arguments are the text of the first and the trail of the others. -/
theorem joined_cons
    (argument : Argument)
    (rest : List Argument) :
    joined (argument :: rest) = argument.text ++ trailing rest := by
  cases rest with
  | nil => simp [joined, trailing]
  | cons next rest => simp [joined, trailing]

/-- The trail of arguments is detached: it is empty or starts with a blank. -/
theorem detached_trailing
    (arguments : List Argument) :
    Detached (trailing arguments) := by
  cases arguments with
  | nil => exact detached_nil
  | cons argument rest => exact detached_cons (by decide) _

theorem all_nil :
    all [] = [] := by
  unfold all
  rfl

/-- A blank in front is skipped. -/
theorem all_cons_of_blank
    {c : Char}
    (blank : isBlank c = true)
    (rest : List Char) :
    all (c :: rest) = all rest := by
  rw [all, dif_pos blank]

/-- Where no blank stands, the first argument is read and the rest goes on behind it. -/
theorem all_cons_of_solid
    {c : Char}
    (solid : ¬ isBlank c = true)
    (rest : List Char) :
    all (c :: rest) =
      first (c :: rest) :: all ((c :: rest).drop (first (c :: rest)).text.length) := by
  rw [all, dif_neg solid]

/-- The trail of arguments reads as the arguments joined. -/
@[simp] theorem all_trailing
    (arguments : List Argument) :
    all (trailing arguments) = all (joined arguments) := by
  cases arguments with
  | nil => rfl
  | cons argument rest => exact all_cons_of_blank (by decide) _

/-! ## Readings that start afresh -/

variable {σ : Type}

/--
A reading of characters that may stop starts afresh when a blank brings it back to its first state,
and when each quote does so too, unless it stops at a quote that it meets in that state.
-/
structure StartsAfresh
    (step : σ → Char → Option σ)
    (start : σ) :
    Prop where
  blank : ∀ state c, isBlank c = true → step state c = some start
  quote : ∀ c, c = '"' ∨ c = '\'' →
    step start c = none ∨ ∀ state, step state c = some start

/-- Whether a reading goes through a text without stopping. -/
def Passes
    (step : σ → Char → Option σ)
    (state : σ)
    (text : List Char) :
    Prop :=
  ∃ final, text.foldlM step state = some final

theorem passes_nil
    (step : σ → Char → Option σ)
    (state : σ) :
    Passes step state [] :=
  ⟨state, rfl⟩

/-- A text passes when its first character has a next state and the rest passes from there. -/
theorem passes_cons
    {step : σ → Char → Option σ}
    {state : σ}
    {c : Char}
    {rest : List Char} :
    Passes step state (c :: rest) ↔
      ∃ next, step state c = some next ∧ Passes step next rest := by
  simp only [Passes, List.foldlM_cons, Option.bind_eq_bind, Option.bind_eq_some_iff]
  constructor
  · rintro ⟨final, next, stepped, read⟩
    exact ⟨next, stepped, final, read⟩
  · rintro ⟨next, stepped, final, read⟩
    exact ⟨final, next, stepped, read⟩

/-- A text passes when its front leads to a state from which the rest passes. -/
theorem passes_append
    {step : σ → Char → Option σ}
    {state : σ}
    {before after : List Char} :
    Passes step state (before ++ after) ↔
      ∃ middle, before.foldlM step state = some middle ∧ Passes step middle after := by
  simp only [Passes, List.foldlM_append, Option.bind_eq_bind, Option.bind_eq_some_iff]
  constructor
  · rintro ⟨final, middle, read, readOn⟩
    exact ⟨middle, read, final, readOn⟩
  · rintro ⟨middle, read, final, readOn⟩
    exact ⟨final, middle, read, readOn⟩

namespace StartsAfresh

variable {step : σ → Char → Option σ} {start : σ}

/-- Behind a word the state of the reading no longer matters. -/
theorem passes_of_detached
    (afresh : StartsAfresh step start)
    {state : σ}
    {text : List Char}
    (detached : Detached text)
    (passes : Passes step state text) :
    Passes step start text := by
  cases text with
  | nil => exact passes_nil step start
  | cons c rest =>
      have blank : isBlank c = true := detached c rfl
      obtain ⟨next, stepped, readOn⟩ := passes_cons.mp passes
      rw [afresh.blank state c blank] at stepped
      cases stepped
      exact passes_cons.mpr ⟨start, afresh.blank start c blank, readOn⟩

/-- When the joined arguments pass from the start, their trail passes from every state. -/
theorem passes_trailing
    (afresh : StartsAfresh step start)
    {arguments : List Argument}
    (passes : Passes step start (joined arguments))
    (state : σ) :
    Passes step state (trailing arguments) := by
  cases arguments with
  | nil => exact passes_nil step state
  | cons argument rest =>
      exact passes_cons.mpr ⟨start, afresh.blank state ' ' (by decide), passes⟩

/-- A string in quotes that the reading passes brings it back to its first state. -/
theorem state_after_quoted
    (afresh : StartsAfresh step start)
    {quote : Char}
    (isQuote : quote = '"' ∨ quote = '\'')
    {content : List Char}
    {final : σ}
    (read : (quote :: (content ++ [quote])).foldlM step start = some final) :
    final = start := by
  rcases afresh.quote quote isQuote with stops | returns
  · simp [stops] at read
  · simp only [List.foldlM_cons, returns start, Option.bind_eq_bind, Option.bind_some,
      List.foldlM_append, Option.bind_eq_some_iff, List.foldlM_nil] at read
    obtain ⟨middle, _, next, stepped, ends⟩ := read
    rw [returns middle] at stepped
    cases stepped
    cases ends
    rfl

/-- What follows an argument passes from the first state as well. -/
theorem passes_after_first
    (afresh : StartsAfresh step start)
    {text rest : List Char}
    (shape : (first text).text ++ rest = text)
    {middle : σ}
    (read : (first text).text.foldlM step start = some middle)
    (passes : Passes step middle rest) :
    Passes step start rest := by
  rcases first_reaches text with isWord | ⟨quote, content, c, beyond, isQuote, _, quoted, _⟩
  · rw [isWord] at shape
    have isAfter : rest = afterHeadWord text :=
      List.append_cancel_left (shape.trans (headWord_append_afterHeadWord text).symm)
    exact afresh.passes_of_detached (isAfter ▸ detached_afterHeadWord text) passes
  · rw [quoted] at read
    rw [afresh.state_after_quoted isQuote read] at passes
    exact passes

/-- A reading that starts afresh passes the joined arguments of each text that it passes. -/
theorem passes_joined_all
    (afresh : StartsAfresh step start)
    {text : List Char}
    (passes : Passes step start text) :
    Passes step start (joined (all text)) := by
  fun_induction all text with
  | case1 => exact passes_nil step start
  | case2 c rest blank inductionHypothesis =>
      obtain ⟨next, stepped, readOn⟩ := passes_cons.mp passes
      rw [afresh.blank start c blank] at stepped
      cases stepped
      exact inductionHypothesis readOn
  | case3 c rest solid inductionHypothesis =>
      have shape : (first (c :: rest)).text ++
          (c :: rest).drop (first (c :: rest)).text.length = c :: rest :=
        List.prefix_iff_eq_append.mp (first_isPrefix (c :: rest))
      rw [← shape] at passes
      obtain ⟨middle, read, readOn⟩ := passes_append.mp passes
      have restPasses := inductionHypothesis (afresh.passes_after_first shape read readOn)
      rw [joined_cons]
      exact passes_append.mpr ⟨middle, read, afresh.passes_trailing restPasses middle⟩

/-- The same where the arguments stand behind a word. -/
theorem passes_append_trailing_all
    (afresh : StartsAfresh step start)
    {state : σ}
    {word rest : List Char}
    (detached : Detached rest)
    (passes : Passes step state (word ++ rest)) :
    Passes step state (word ++ trailing (all rest)) := by
  obtain ⟨middle, read, readOn⟩ := passes_append.mp passes
  have restPasses := afresh.passes_joined_all (afresh.passes_of_detached detached readOn)
  exact passes_append.mpr ⟨middle, read, afresh.passes_trailing restPasses middle⟩

end StartsAfresh

/-! ## The searches for a closing quote -/

/-- One character of a search for a closing double quote; the state tells a backslash before it. -/
def seekDoubleQuote : Bool → Char → Option Bool
  | true, _ => some false
  | false, c => if c = '"' then none else some (c = '\\')

/-- One character of a search for a closing single quote. -/
def seekSingleQuote
    (_ : Unit)
    (c : Char) :
    Option Unit :=
  if c = '\'' then none else some ()

/-- The search for a double quote starts afresh at every blank and stops at the quote alone. -/
theorem seekDoubleQuote_startsAfresh :
    StartsAfresh seekDoubleQuote false where
  blank := by
    intro state c blank
    have notQuote : c ≠ '"' := ne_of_isBlank blank (by decide)
    have notBackslash : c ≠ '\\' := ne_of_isBlank blank (by decide)
    cases state <;> simp [seekDoubleQuote, notQuote, notBackslash]
  quote := by
    rintro c (rfl | rfl)
    · exact Or.inl rfl
    · refine Or.inr fun state => ?_
      cases state <;> rfl

/-- The search for a single quote has one state, so it starts afresh anywhere. -/
theorem seekSingleQuote_startsAfresh :
    StartsAfresh seekSingleQuote () where
  blank := by
    intro state c blank
    simp [seekSingleQuote, ne_of_isBlank blank (show isBlank '\'' = false by decide)]
  quote := by
    rintro c (rfl | rfl)
    · exact Or.inr fun _ => rfl
    · exact Or.inl rfl

/-- In a text of one line a double quote stays open exactly when the search passes the text. -/
theorem closeDoubleQuote?_eq_none_iff
    {text : List Char}
    (noFeed : '\n' ∉ text) :
    closeDoubleQuote? text = none ↔ Passes seekDoubleQuote false text := by
  fun_induction closeDoubleQuote? text with
  | case1 => simp [passes_nil]
  | case2 rest => simp [passes_cons, seekDoubleQuote]
  | case3 rest => simp at noFeed
  | case4 c rest notFeed inductionHypothesis =>
      have restNoFeed : '\n' ∉ rest := by
        simp only [List.mem_cons, not_or] at noFeed
        exact noFeed.2.2
      simpa [passes_cons, seekDoubleQuote] using inductionHypothesis restNoFeed
  | case5 rest notQuote notEscape =>
      have restEmpty : rest = [] := by
        cases rest with
        | nil => rfl
        | cons c rest => exact absurd rfl (notEscape c rest rfl)
      simp [restEmpty, passes_cons, seekDoubleQuote, passes_nil]
  | case6 c rest notQuote notEscape notBackslash inductionHypothesis =>
      have restNoFeed : '\n' ∉ rest := by
        simp only [List.mem_cons, not_or] at noFeed
        exact noFeed.2
      have notClosing : c ≠ '"' := fun same => notQuote same
      simpa [passes_cons, seekDoubleQuote, notClosing, notBackslash] using
        inductionHypothesis restNoFeed

/-- No closing single quote is found where the search passes the whole text. -/
theorem closeSingleQuote?_eq_none_iff
    {text : List Char} :
    closeSingleQuote? text = none ↔ Passes seekSingleQuote () text := by
  induction text with
  | nil => simp [closeSingleQuote?, passes_nil]
  | cons c rest inductionHypothesis =>
      by_cases isQuote : c = '\''
      · simp [closeSingleQuote?, passes_cons, seekSingleQuote, isQuote]
      · simp only [closeSingleQuote?, isQuote, if_false, Option.map_eq_none_iff,
          inductionHypothesis, passes_cons, seekSingleQuote, true_and]
        constructor
        · intro passes
          exact ⟨(), passes⟩
        · rintro ⟨_, passes⟩
          exact passes

/--
A search for a closing quote has the same result in a text and after its arguments are joined again,
where the first argument holds what is found, or else ends with a word.
-/
theorem close?_joined
    {close? : List Char → Option (List Char)}
    {quote : Char}
    {step : σ → Char → Option σ}
    {start : σ}
    (afresh : StartsAfresh step start)
    {content rest : List Char}
    (openInText : close? (content ++ rest) = none ↔ Passes step start (content ++ rest))
    (openInJoined :
      close? (content ++ trailing (all rest)) = none ↔
        Passes step start (content ++ trailing (all rest)))
    (closes : ∀ inner,
      close? (content ++ rest) = some inner →
        ClosesAt close? quote (content ++ rest) inner ∧ inner.length ≤ content.length)
    (detached : close? (content ++ rest) = none → Detached rest) :
    close? (content ++ trailing (all rest)) = close? (content ++ rest) := by
  cases found : close? (content ++ rest) with
  | none =>
      have passes := openInText.mp found
      exact openInJoined.mpr (afresh.passes_append_trailing_all (detached found) passes)
  | some inner =>
      obtain ⟨closesAt, fits⟩ := closes inner found
      obtain ⟨after, contentShape⟩ :=
        List.prefix_of_prefix_length_le closesAt.isPrefix (List.prefix_append content rest) fits
      rw [← contentShape, List.append_assoc]
      exact closesAt.stable _

/-! ## Reading the joined arguments -/

/-- Besides spaces the trail has only characters of the text. -/
theorem mem_trailing_all
    {text : List Char}
    {c : Char}
    (notSpace : c ≠ ' ') :
    c ∈ trailing (all text) → c ∈ text := by
  fun_induction all text with
  | case1 => simp [trailing]
  | case2 blank rest isBlank inductionHypothesis =>
      exact fun member => List.mem_cons_of_mem _ (inductionHypothesis member)
  | case3 d rest solid inductionHypothesis =>
      intro member
      rw [trailing, joined_cons] at member
      simp only [List.mem_cons, List.mem_append] at member
      rcases member with isSpace | inFirst | inRest
      · exact absurd isSpace notSpace
      · exact (first_isPrefix (d :: rest)).subset inFirst
      · exact List.mem_of_mem_drop (inductionHypothesis inRest)

/-- The first word of the joined text is that of the text. -/
theorem headWord_joined
    (text rest : List Char) :
    headWord ((first text).text ++ trailing (all rest)) = headWord text := by
  rcases first_reaches text with isWord | ⟨_, _, c, beyond, _, blank, _, reaches⟩
  · rw [isWord]
    exact headWord_append (solid_headWord text) (detached_trailing _)
  · rw [reaches, List.append_assoc]
    exact headWord_append (solid_headWord text) (detached_cons blank _)

/-- Where no string is found at a quote, the longest match is the first word. -/
theorem detached_of_unquoted
    {text rest : List Char}
    (shape : (first text).text ++ rest = text)
    (notSingle : singleQuoted? text = none)
    (notDouble : doubleQuoted? text = none) :
    Detached rest := by
  have isWord : (first text).text = headWord text := by
    rcases first_eq_or text with isWord | isNumber | isSingle | isDouble
    · rw [isWord]
      rfl
    · have inWord : (first text).text <+: headWord text := by
        rw [← number?_headWord] at isNumber
        exact number?_isPrefix isNumber
      exact inWord.eq_of_length_le (length_headWord_le_first text)
    · rw [notSingle] at isSingle
      cases isSingle
    · rw [notDouble] at isDouble
      cases isDouble
  have isAfter : rest = afterHeadWord text := by
    rw [isWord] at shape
    exact List.append_cancel_left (shape.trans (headWord_append_afterHeadWord text).symm)
  rw [isAfter]
  exact detached_afterHeadWord text

/-- A double-quoted argument starts with a double quote. -/
theorem doubleQuoted?_cons_of_ne
    {c : Char}
    (notQuote : c ≠ '"')
    (rest : List Char) :
    doubleQuoted? (c :: rest) = none := by
  unfold doubleQuoted?
  split
  · rename_i shape
    exact absurd (List.cons.inj shape).1 notQuote
  · rfl

/-- Joining the arguments again changes nothing about a double-quoted one at the head. -/
theorem doubleQuoted?_joined
    {text rest : List Char}
    (noFeed : '\n' ∉ text)
    {c : Char}
    {content : List Char}
    (starts : (first text).text = c :: content)
    (shape : (first text).text ++ rest = text) :
    doubleQuoted? (c :: (content ++ trailing (all rest))) = doubleQuoted? text := by
  have textShape : text = c :: (content ++ rest) := by rw [← shape, starts, List.cons_append]
  by_cases isQuote : c = '"'
  · subst isQuote
    have feedFree : '\n' ∉ content ++ rest := by
      rw [textShape] at noFeed
      exact fun member => noFeed (List.mem_cons_of_mem _ member)
    have joinedFeedFree : '\n' ∉ content ++ trailing (all rest) := by
      simp only [List.mem_append, not_or] at feedFree ⊢
      exact ⟨feedFree.1, fun member => feedFree.2 (mem_trailing_all (by decide) member)⟩
    have sameClose :
        closeDoubleQuote? (content ++ trailing (all rest)) =
          closeDoubleQuote? (content ++ rest) := by
      apply close?_joined seekDoubleQuote_startsAfresh
        (closeDoubleQuote?_eq_none_iff feedFree) (closeDoubleQuote?_eq_none_iff joinedFeedFree)
      · intro inner found
        refine ⟨closesAt_of_closeDoubleQuote? found, ?_⟩
        have quoted : doubleQuoted? text = some ⟨.doubleQuoted, '"' :: inner⟩ := by
          simp [textShape, doubleQuoted?, found]
        simpa [starts] using length_le_first_of_doubleQuoted? quoted
      · intro stays
        apply detached_of_unquoted shape
        · simp [textShape, singleQuoted?]
        · simp [textShape, doubleQuoted?, stays]
    simp [textShape, doubleQuoted?, sameClose]
  · rw [textShape, doubleQuoted?_cons_of_ne isQuote, doubleQuoted?_cons_of_ne isQuote]

/-- A single-quoted argument starts with a single quote. -/
theorem singleQuoted?_cons_of_ne
    {c : Char}
    (notQuote : c ≠ '\'')
    (rest : List Char) :
    singleQuoted? (c :: rest) = none := by
  unfold singleQuoted?
  split
  · rename_i shape
    exact absurd (List.cons.inj shape).1 notQuote
  · rfl

/-- Joining the arguments again changes nothing about a single-quoted one at the head. -/
theorem singleQuoted?_joined
    {text rest : List Char}
    {c : Char}
    {content : List Char}
    (starts : (first text).text = c :: content)
    (shape : (first text).text ++ rest = text) :
    singleQuoted? (c :: (content ++ trailing (all rest))) = singleQuoted? text := by
  have textShape : text = c :: (content ++ rest) := by rw [← shape, starts, List.cons_append]
  by_cases isQuote : c = '\''
  · subst isQuote
    have sameClose :
        closeSingleQuote? (content ++ trailing (all rest)) =
          closeSingleQuote? (content ++ rest) := by
      apply close?_joined seekSingleQuote_startsAfresh
        closeSingleQuote?_eq_none_iff closeSingleQuote?_eq_none_iff
      · intro inner found
        refine ⟨closesAt_of_closeSingleQuote? found, ?_⟩
        have quoted : singleQuoted? text = some ⟨.singleQuoted, '\'' :: inner⟩ := by
          simp [textShape, singleQuoted?, found]
        simpa [starts] using length_le_first_of_singleQuoted? quoted
      · intro stays
        apply detached_of_unquoted shape
        · simp [textShape, singleQuoted?, stays]
        · simp [textShape, doubleQuoted?]
    simp [textShape, singleQuoted?, sameClose]
  · rw [textShape, singleQuoted?_cons_of_ne isQuote, singleQuoted?_cons_of_ne isQuote]

/-- The longest match of the joined text is that of the text. -/
theorem first_joined
    {text rest : List Char}
    (noFeed : '\n' ∉ text)
    {c : Char}
    {content : List Char}
    (starts : (first text).text = c :: content)
    (shape : (first text).text ++ rest = text) :
    first ((first text).text ++ trailing (all rest)) = first text := by
  have sameWord := headWord_joined text rest
  have sameNumber :
      number? ((first text).text ++ trailing (all rest)) = number? text := by
    rw [← number?_headWord, sameWord, number?_headWord]
  have sameSingle := singleQuoted?_joined starts shape
  have sameDouble := doubleQuoted?_joined noFeed starts shape
  rw [← List.cons_append, ← starts] at sameSingle sameDouble
  have joinedFirst : ∀ other,
      headWord other = headWord text →
      number? other = number? text →
      singleQuoted? other = singleQuoted? text →
      doubleQuoted? other = doubleQuoted? text →
      first other = first text := by
    intro other sameWord sameNumber sameSingle sameDouble
    simp only [first, word, sameWord, sameNumber, sameSingle, sameDouble]
  exact joinedFirst _ sameWord sameNumber sameSingle sameDouble

/-- The arguments of a text of one line are the arguments of their joined texts. -/
theorem all_joined_all
    {text : List Char}
    (noFeed : '\n' ∉ text) :
    all (joined (all text)) = all text := by
  fun_induction all text with
  | case1 => exact all_nil
  | case2 c rest blank inductionHypothesis =>
      exact inductionHypothesis fun member => noFeed (List.mem_cons_of_mem _ member)
  | case3 c rest solid inductionHypothesis =>
      have shape : (first (c :: rest)).text ++
          (c :: rest).drop (first (c :: rest)).text.length = c :: rest :=
        List.prefix_iff_eq_append.mp (first_isPrefix (c :: rest))
      obtain ⟨content, starts⟩ : ∃ content, (first (c :: rest)).text = c :: content := by
        have positive : 0 < (first (c :: rest)).text.length := first_length_pos solid
        cases text : (first (c :: rest)).text with
        | nil => simp [text] at positive
        | cons d content =>
            rw [text] at shape
            exact ⟨content, by rw [(List.cons.inj shape).1]⟩
      have sameFirst := first_joined noFeed starts shape
      have restNoFeed : '\n' ∉ (c :: rest).drop (first (c :: rest)).text.length :=
        fun member => noFeed (List.mem_of_mem_drop member)
      rw [joined_cons]
      generalize (c :: rest).drop (first (c :: rest)).text.length = after at *
      rw [starts, List.cons_append, all_cons_of_solid solid, ← List.cons_append, ← starts,
        sameFirst, List.drop_left, all_trailing, inductionHypothesis restNoFeed]

/-! ## Ends of arguments -/

/-- The first argument does not end with a blank. -/
theorem endsSolid_first
    {c : Char}
    (solid : ¬ isBlank c = true)
    (rest : List Char) :
    EndsSolid (first (c :: rest)).text := by
  rcases first_reaches (c :: rest) with isWord | ⟨quote, content, _, _, isQuote, _, quoted, _⟩
  · rw [isWord]
    exact endsSolid_of_solid (solid_headWord _) (by simp [headWord, solid])
  · rw [quoted]
    refine ⟨quote :: content, quote, rfl, ?_⟩
    rcases isQuote with rfl | rfl <;> decide

/-- No argument of a text ends with a blank. -/
theorem endsSolid_of_mem_all
    {text : List Char}
    {argument : Argument} :
    argument ∈ all text → EndsSolid argument.text := by
  fun_induction all text with
  | case1 => simp
  | case2 c rest blank inductionHypothesis => exact inductionHypothesis
  | case3 c rest solid inductionHypothesis =>
      intro member
      rcases List.mem_cons.mp member with rfl | inRest
      · exact endsSolid_first solid rest
      · exact inductionHypothesis inRest

/-- The trail of arguments ends like the last of them, with no blank. -/
theorem endsSolid_trailing
    {arguments : List Argument}
    (nonempty : arguments ≠ [])
    (ends : ∀ argument ∈ arguments, EndsSolid argument.text) :
    EndsSolid (trailing arguments) := by
  induction arguments with
  | nil => exact absurd rfl nonempty
  | cons argument rest inductionHypothesis =>
      rw [trailing, joined_cons]
      by_cases isLast : rest = []
      · subst isLast
        rw [trailing, List.append_nil]
        exact (ends argument (by simp)).append [' ']
      · have restEnds := inductionHypothesis isLast fun other member =>
          ends other (List.mem_cons_of_mem _ member)
        exact (restEnds.append argument.text).append [' ']

end Argument

end Flowmark
