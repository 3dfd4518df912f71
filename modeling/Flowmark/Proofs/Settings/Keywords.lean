import Flowmark.Proofs.Keyword.History
import Flowmark.Settings

namespace Flowmark

open Text KeywordTable

/-!
# Keywords that settings add

Settings keep one entry for each exact spelling, at the place where the spelling first came.  Only
the table takes spellings that differ in case for one keyword.  So the settings give a keyword the
tag of the spelling of it that came up last, although an older spelling may have been given again
since; a table in which the same spellings are registered one after another follows the last one.
-/

namespace Settings

/-- The spelling of a token that came up last, each spelling counted where it first came. -/
def newestSpelling?
    (keywords : List (String × Tag))
    (token : List Char) :
    Option String :=
  (keywords.map Prod.fst).eraseDups.findRev? fun spelling =>
    foldCase spelling.toList = foldCase token

/-- The tag that the spelling of a token that came up last was last given. -/
def newestTag?
    (keywords : List (String × Tag))
    (token : List Char) :
    Option Tag :=
  (newestSpelling? keywords token).bind fun spelling =>
    (keywords.findRev? fun entry => entry.1 = spelling).map Prod.snd

/-- Keywords are added one after another. -/
theorem addKeywords_eq_foldl
    (settings : Settings)
    (keywords : List (String × Tag)) :
    settings.addKeywords keywords =
      keywords.foldl (fun settings (keyword, tag) => settings.addKeyword keyword tag) settings := by
  induction keywords generalizing settings with
  | nil => rfl
  | cons entry keywords inductionHypothesis =>
      exact inductionHypothesis (settings.addKeyword entry.1 entry.2)

/-- Of the added spellings of a token, the table of the settings follows the newest one. -/
theorem lastTag?_extraKeywords
    (keywords : List (String × Tag))
    (token : List Char) :
    lastTag? (standard.addKeywords keywords).extraKeywords.entries token =
      newestTag? keywords token := by
  have lastGiven : ∀ spelling,
      (standard.addKeywords keywords).extraKeywords.get? spelling =
        (keywords.findRev? fun entry => entry.1 = spelling).map Prod.snd := by
    intro spelling
    rw [addKeywords, OrderedMap.get?_insertAll]
    exact Option.or_none
  calc
    lastTag? (standard.addKeywords keywords).extraKeywords.entries token =
        ((standard.addKeywords keywords).extraKeywords.keys.findRev? fun (spelling : String) =>
            foldCase spelling.toList = foldCase token).bind
          (standard.addKeywords keywords).extraKeywords.get? :=
      OrderedMap.map_snd_findRev? (standard.addKeywords keywords).extraKeywords
        fun spelling => foldCase spelling.toList = foldCase token
    _ = newestTag? keywords token := by
      rw [funext lastGiven, addKeywords, OrderedMap.keys_insertAll]
      rfl

/-- A token has a newest spelling exactly where one of its spellings was given. -/
theorem isSome_newestTag?
    (keywords : List (String × Tag))
    (token : List Char) :
    (newestTag? keywords token).isSome = (lastTag? keywords token).isSome := by
  have given : ∀ spelling ∈ newestSpelling? keywords token,
      ((keywords.findRev? fun entry => entry.1 = spelling).map Prod.snd).isSome = true := by
    intro spelling isNewest
    rw [newestSpelling?, List.findRev?_eq_find?_reverse] at isNewest
    have isGiven := List.mem_of_find?_eq_some isNewest
    rw [List.mem_reverse, List.mem_eraseDups, List.mem_map] at isGiven
    obtain ⟨entry, isEntry, rfl⟩ := isGiven
    rw [Option.isSome_map, List.findRev?_eq_find?_reverse, List.find?_isSome]
    exact ⟨entry, List.mem_reverse.mpr isEntry, by simp⟩
  calc
    (newestTag? keywords token).isSome = (newestSpelling? keywords token).isSome := by
      unfold newestTag?
      cases isNewest : newestSpelling? keywords token with
      | none => rfl
      | some spelling => exact given spelling isNewest
    _ = (lastTag? keywords token).isSome := by
      rw [Bool.eq_iff_iff, newestSpelling?, lastTag?, Option.isSome_map,
        List.findRev?_eq_find?_reverse, List.findRev?_eq_find?_reverse, List.find?_isSome,
        List.find?_isSome]
      simp

/-! ## Spellings that are given again -/

/-- A spelling is given again after another spelling of its keyword. -/
def GivesAgain
    (keywords : List (String × Tag)) :
    Prop :=
  ∃ spelling other first between again,
    [(spelling, first), (other, between), (spelling, again)].Sublist keywords ∧
      spelling ≠ other ∧
      foldCase spelling.toList = foldCase other.toList

/-- A further registration decides the tag of the tokens that it is for. -/
theorem lastTag?_concat
    (keywords : List (String × Tag))
    (spelling : String)
    (tag : Tag)
    (token : List Char) :
    lastTag? (keywords ++ [(spelling, tag)]) token =
      if foldCase spelling.toList = foldCase token then some tag else lastTag? keywords token := by
  simp only [lastTag?, List.findRev?_eq_find?_reverse, List.reverse_append, List.reverse_singleton,
    List.singleton_append, List.find?_cons]
  by_cases isFor : foldCase spelling.toList = foldCase token
  · simp [isFor]
  · simp [isFor]

/-- A further spelling of a token is the newest one unless it was given before. -/
theorem newestSpelling?_concat
    (keywords : List (String × Tag))
    (spelling : String)
    (tag : Tag)
    (token : List Char) :
    newestSpelling? (keywords ++ [(spelling, tag)]) token =
      if spelling ∉ keywords.map Prod.fst ∧ foldCase spelling.toList = foldCase token then
        some spelling
      else
        newestSpelling? keywords token := by
  simp only [newestSpelling?, List.map_append, List.map_cons, List.map_nil, List.eraseDups_append,
    List.findRev?_eq_find?_reverse]
  by_cases known : spelling ∈ keywords.map Prod.fst
  · have noNew : [spelling].removeAll (keywords.map Prod.fst) = [] := by
      simpa [List.removeAll] using known
    rw [if_neg fun isNew => isNew.1 known, noNew, List.eraseDups_nil, List.append_nil]
  · have isNew : [spelling].removeAll (keywords.map Prod.fst) = [spelling] := by
      simpa [List.removeAll] using known
    have alone : [spelling].eraseDups = [spelling] := by simp [List.eraseDups_cons]
    rw [isNew, alone, List.reverse_append, List.reverse_singleton,
      List.singleton_append, List.find?_cons]
    by_cases isFor : foldCase spelling.toList = foldCase token
    · simp [isFor, known]
    · simp [isFor]

/-- A further registration decides the tag where its spelling is the newest one. -/
theorem newestTag?_concat_of_newest
    {keywords : List (String × Tag)}
    {spelling newest : String}
    {tag : Tag}
    {token : List Char}
    (isNewest : newestSpelling? (keywords ++ [(spelling, tag)]) token = some newest) :
    newestTag? (keywords ++ [(spelling, tag)]) token =
      if spelling = newest then
        some tag
      else
        (keywords.findRev? fun entry => entry.1 = newest).map Prod.snd := by
  rw [newestTag?, isNewest, Option.bind_some, List.findRev?_eq_find?_reverse, List.reverse_append,
    List.reverse_singleton, List.singleton_append, List.find?_cons]
  by_cases same : spelling = newest
  · simp [same]
  · simp [same, List.findRev?_eq_find?_reverse]

/-- The newest spelling of a token is one of its spellings. -/
theorem foldCase_of_newest
    {keywords : List (String × Tag)}
    {newest : String}
    {token : List Char}
    (isNewest : newestSpelling? keywords token = some newest) :
    foldCase newest.toList = foldCase token := by
  rw [newestSpelling?, List.findRev?_eq_find?_reverse] at isNewest
  simpa using List.find?_some isNewest

/-- Any other spelling of a token came up before the newest one. -/
theorem exists_before_newest
    {keywords : List (String × Tag)}
    {spelling newest : String}
    {token : List Char}
    (isNewest : newestSpelling? keywords token = some newest)
    (isGiven : spelling ∈ keywords.map Prod.fst)
    (isFor : foldCase spelling.toList = foldCase token)
    (isOther : spelling ≠ newest) :
    ∃ first between, [(spelling, first), (newest, between)].Sublist keywords := by
  -- From the end: the newest spelling stays the newest one when an older spelling is given again.
  induction keywords using List.reverseRecOn with
  | nil => simp at isGiven
  | append_singleton keywords entry inductionHypothesis =>
      obtain ⟨latest, tag⟩ := entry
      rw [newestSpelling?_concat] at isNewest
      split at isNewest
      · obtain rfl := Option.some.inj isNewest
        have isEarlier : spelling ∈ keywords.map Prod.fst := by
          simpa [isOther] using isGiven
        obtain ⟨⟨_, first⟩, isEntry, rfl⟩ := List.mem_map.mp isEarlier
        exact ⟨first, tag, (List.singleton_sublist.mpr isEntry).append (List.Sublist.refl _)⟩
      · rename_i isOld
        have isEarlier : spelling ∈ keywords.map Prod.fst := by
          by_contra isNew
          obtain rfl : spelling = latest := by simpa [isNew] using isGiven
          exact isOld ⟨isNew, isFor⟩
        obtain ⟨first, between, ordered⟩ := inductionHypothesis isNewest isEarlier
        exact ⟨first, between, ordered.trans (List.sublist_append_left _ _)⟩

/-- A token with a spelling has a newest one. -/
theorem exists_newest
    {keywords : List (String × Tag)}
    {spelling : String}
    {token : List Char}
    (isGiven : spelling ∈ keywords.map Prod.fst)
    (isFor : foldCase spelling.toList = foldCase token) :
    ∃ newest, newestSpelling? keywords token = some newest := by
  rw [← Option.isSome_iff_exists, newestSpelling?, List.findRev?_eq_find?_reverse,
    List.find?_isSome]
  exact ⟨spelling, by simpa using isGiven, by simpa using isFor⟩

/-- Where no spelling is given again, the spelling that is given last is the newest one. -/
theorem newestSpelling?_of_inOrder
    {keywords : List (String × Tag)}
    {spelling : String}
    {tag : Tag}
    {token : List Char}
    (inOrder : ¬ GivesAgain (keywords ++ [(spelling, tag)]))
    (isFor : foldCase spelling.toList = foldCase token) :
    newestSpelling? (keywords ++ [(spelling, tag)]) token = some spelling := by
  rw [newestSpelling?_concat]
  by_cases known : spelling ∈ keywords.map Prod.fst
  · obtain ⟨newest, isNewest⟩ := exists_newest known isFor
    rw [if_neg fun isNew => isNew.1 known, isNewest]
    by_contra isOther
    have notSame : spelling ≠ newest := fun same => isOther (same ▸ rfl)
    obtain ⟨first, between, ordered⟩ := exists_before_newest isNewest known isFor notSame
    exact inOrder ⟨spelling, newest, first, between, tag,
      ordered.append (List.Sublist.refl _), notSame, isFor.trans (foldCase_of_newest isNewest).symm⟩
  · rw [if_pos ⟨known, isFor⟩]

/-- A spelling of another token leaves the newest spelling and its tag. -/
theorem newestTag?_concat_of_other
    {keywords : List (String × Tag)}
    {spelling : String}
    {tag : Tag}
    {token : List Char}
    (isOther : foldCase spelling.toList ≠ foldCase token) :
    newestTag? (keywords ++ [(spelling, tag)]) token = newestTag? keywords token := by
  have concat := newestSpelling?_concat keywords spelling tag token
  rw [if_neg fun isNew => isOther isNew.2] at concat
  cases isNewest : newestSpelling? keywords token with
  | none => rw [newestTag?, newestTag?, concat, isNewest, Option.bind_none, Option.bind_none]
  | some newest =>
      have notSame : spelling ≠ newest := by
        rintro rfl
        exact isOther (foldCase_of_newest isNewest)
      rw [newestTag?_concat_of_newest (concat.trans isNewest), if_neg notSame, newestTag?,
        isNewest, Option.bind_some]

/-- Where no spelling is given again, the newest spelling of a token was given last. -/
theorem newestTag?_eq_lastTag?
    {keywords : List (String × Tag)}
    (inOrder : ¬ GivesAgain keywords)
    (token : List Char) :
    newestTag? keywords token = lastTag? keywords token := by
  induction keywords using List.reverseRecOn with
  | nil => rfl
  | append_singleton keywords entry inductionHypothesis =>
      obtain ⟨spelling, tag⟩ := entry
      have earlierInOrder : ¬ GivesAgain keywords := by
        rintro ⟨spelling, other, first, between, again, ordered, isOther, sameKeyword⟩
        exact inOrder ⟨spelling, other, first, between, again,
          ordered.trans (List.sublist_append_left _ _), isOther, sameKeyword⟩
      rw [lastTag?_concat]
      by_cases isFor : foldCase spelling.toList = foldCase token
      · rw [newestTag?_concat_of_newest (newestSpelling?_of_inOrder inOrder isFor), if_pos rfl,
          if_pos isFor]
      · rw [newestTag?_concat_of_other isFor, if_neg isFor, inductionHypothesis earlierInOrder]

/--
Registered one after another, keywords have the tag of the last registration for a token.  Added to
settings, they have the tag that was last given to the spelling of the token that came up last.  So
both agree on a token exactly where this is the tag of the last of its keywords, and they agree on
all tokens where no spelling is given again after another spelling of its keyword.
-/
theorem tag?_keywordTable_addKeywords
    (keywords : List (String × Tag))
    (token : List Char) :
    (KeywordTable.standard.insertAll keywords).tag? token =
        (lastTag? keywords token).or (KeywordTable.standard.tag? token) ∧
      (standard.addKeywords keywords).keywordTable.tag? token =
        (newestTag? keywords token).or (KeywordTable.standard.tag? token) ∧
      ((standard.addKeywords keywords).keywordTable.tag? token =
          (KeywordTable.standard.insertAll keywords).tag? token ↔
        newestTag? keywords token = lastTag? keywords token) ∧
      (¬ GivesAgain keywords →
        (standard.addKeywords keywords).keywordTable.tag? token =
          (KeywordTable.standard.insertAll keywords).tag? token) := by
  have registered := tag?_insertAll KeywordTable.standard keywords token
  have added : (standard.addKeywords keywords).keywordTable.tag? token =
      (newestTag? keywords token).or (KeywordTable.standard.tag? token) := by
    rw [keywordTable, tag?_insertAll, lastTag?_extraKeywords]
  refine ⟨registered, added, ?_, fun inOrder => ?_⟩
  · rw [registered, added]
    have both := isSome_newestTag? keywords token
    cases isLast : lastTag? keywords token with
    | none =>
        rw [isLast, Option.isSome_none, Option.isSome_eq_false_iff, Option.isNone_iff_eq_none]
          at both
        rw [both]
        simp
    | some tag =>
        rw [isLast, Option.isSome_some] at both
        obtain ⟨newest, isNewest⟩ := Option.isSome_iff_exists.mp both
        rw [isNewest]
        rfl
  · rw [registered, added, newestTag?_eq_lastTag? inOrder]

/-- A spelling that is given again before another one of its keyword comes up does no harm. -/
theorem agrees_given_again_at_once :
    ¬ GivesAgain [("@X", .input), ("@X", .output), ("@x", .begin)] ∧
      (standard.addKeywords [("@X", .input), ("@X", .output), ("@x", .begin)]).keywordTable.tag?
          "@x".toList =
        (KeywordTable.standard.insertAll [("@X", .input), ("@X", .output), ("@x", .begin)]).tag?
          "@x".toList := by
  have inOrder : ¬ GivesAgain [("@X", .input), ("@X", .output), ("@x", .begin)] := by
    rintro ⟨spelling, other, first, between, again, ordered, isOther, _⟩
    have same := ordered.eq_of_length rfl
    simp only [List.cons.injEq, Prod.mk.injEq] at same
    exact isOther (same.1.1.trans same.2.1.1.symm)
  exact ⟨inOrder, (tag?_keywordTable_addKeywords _ "@x".toList).2.2.2 inOrder⟩

/-- A spelling given again after another one of its keyword has come up does not decide the tag. -/
theorem not_agrees_given_again :
    (standard.addKeywords [("@X", .input), ("@x", .output), ("@X", .begin)]).keywordTable.tag?
        "@x".toList = some .output ∧
      (KeywordTable.standard.insertAll [("@X", .input), ("@x", .output), ("@X", .begin)]).tag?
        "@x".toList = some .begin ∧
      ¬ ∀ keywords token,
        (standard.addKeywords keywords).keywordTable.tag? token =
          (KeywordTable.standard.insertAll keywords).tag? token := by
  have added : (standard.addKeywords
      [("@X", .input), ("@x", .output), ("@X", .begin)]).keywordTable.tag? "@x".toList =
        some .output := by decide
  have registered : (KeywordTable.standard.insertAll
      [("@X", .input), ("@x", .output), ("@X", .begin)]).tag? "@x".toList = some .begin := by decide
  refine ⟨added, registered, fun agree => ?_⟩
  have same := agree [("@X", .input), ("@x", .output), ("@X", .begin)] "@x".toList
  rw [added, registered] at same
  cases same

end Settings

end Flowmark
