import Flowmark.Proofs.Segment.Division
import Flowmark.Proofs.Segment.Place
import Mathlib.Data.List.Basic

namespace Flowmark

open Text

/-!
# Occurrences of keywords

Where every keyword starts with a mark that stands nowhere else in it, a text that begins a keyword
without being one is called a stub.  A buffer that ends at the mark of a keyword is dropped with the
mark in it, so a keyword directly behind a stub is not found.  A stub that was itself dropped does
no harm, so what counts is whether the number of stubs in a row is odd.
-/

namespace Text

/-- The mark of keywords has no other letter case. -/
theorem toLower_eq_mark_iff
    {c : Char} :
    c.toLower = '@' ↔ c = '@' := by
  constructor
  · intro isMark
    by_cases upper : 65 ≤ c.toNat ∧ c.toNat ≤ 90
    · have shifted := toNat_toLower_of_upper upper
      rw [isMark] at shifted
      have value : '@'.toNat = 64 := rfl
      omega
    · rwa [toLower_of_not_upper upper] at isMark
  · rintro rfl
    rfl

/-- A text in lower case has the mark where the text itself has it. -/
theorem mark_mem_foldCase_iff
    {text : List Char} :
    '@' ∈ foldCase text ↔ '@' ∈ text := by
  simp [foldCase, toLower_eq_mark_iff]

/-- A text starts with the mark of keywords and has no other one. -/
def IsMarked
    (text : List Char) :
    Prop :=
  ∃ tail, text = '@' :: tail ∧ '@' ∉ tail

instance decidableIsMarked
    (text : List Char) :
    Decidable (IsMarked text) :=
  decidable_of_iff (text.head? = some '@' ∧ '@' ∉ text.tail) (by cases text <;> simp [IsMarked])

/-- A marked text does not start with a blank. -/
theorem IsMarked.startsSolid
    {text : List Char}
    (marked : IsMarked text) :
    StartsSolid text := by
  obtain ⟨tail, rfl, _⟩ := marked
  exact ⟨'@', tail, rfl, by decide⟩

/-- A marked text is not empty. -/
theorem IsMarked.nonempty
    {text : List Char}
    (marked : IsMarked text) :
    text ≠ [] := by
  obtain ⟨tail, rfl, _⟩ := marked
  exact List.cons_ne_nil _ _

/-- A marked text has the mark at its start only. -/
theorem IsMarked.eq_nil_of_append
    {front back : List Char}
    (marked : IsMarked (front ++ '@' :: back)) :
    front = [] := by
  obtain ⟨tail, shape, noMark⟩ := marked
  rcases List.append_eq_cons_iff.mp shape with ⟨isNil, _⟩ | ⟨_, _, rfl⟩
  · exact isNil
  · exact absurd (by simp) noMark

/-- Letter case does not matter for marks. -/
@[simp] theorem isMarked_foldCase_iff
    {text : List Char} :
    IsMarked (foldCase text) ↔ IsMarked text := by
  cases text with
  | nil => simp [IsMarked, foldCase]
  | cons c rest =>
      have folded : foldCase (c :: rest) = c.toLower :: foldCase rest := rfl
      simp [IsMarked, folded, toLower_eq_mark_iff, mark_mem_foldCase_iff]

/-- A marked text does not end within another one. -/
theorem IsMarked.append_ext
    {before before' text text' : List Char}
    (marked : IsMarked text)
    (marked' : IsMarked text')
    (same : before ++ text = before' ++ text') :
    before = before' ∧ text = text' := by
  obtain ⟨tail, rfl, noMark⟩ := marked
  obtain ⟨tail', rfl, noMark'⟩ := marked'
  rcases List.append_eq_append_iff.mp same with ⟨between, rfl, shape⟩ | ⟨between, rfl, shape⟩
  · rcases List.cons_eq_append_iff.mp shape with ⟨rfl, sameTail⟩ | ⟨between, rfl, tailShape⟩
    · exact ⟨(List.append_nil _).symm, sameTail.symm⟩
    · exact absurd (by simp [tailShape]) noMark
  · rcases List.cons_eq_append_iff.mp shape with ⟨rfl, sameTail⟩ | ⟨between, rfl, tailShape⟩
    · exact ⟨List.append_nil _, sameTail⟩
    · exact absurd (by simp [tailShape]) noMark'

end Text

namespace KeywordTable

/-- A keyword starts with a mark that stands nowhere else in it, and no keyword begins another. -/
structure IsMarked
    (table : KeywordTable) :
    Prop where
  marked : ∀ keyword ∈ table.keywords, Text.IsMarked keyword
  apart : ∀ keyword ∈ table.keywords, ∀ other ∈ table.keywords,
    keyword <+: other → keyword = other

/-- Each keyword is a word: it is not empty and has no blanks. -/
def HasWords
    (table : KeywordTable) :
    Prop :=
  ∀ keyword ∈ table.keywords, keyword ≠ [] ∧ Solid keyword

instance decidableHasWords
    (table : KeywordTable) :
    Decidable table.HasWords :=
  decidable_of_iff
    (table.keywords.all (fun keyword => keyword != [] && keyword.all (!isBlank ·)) = true)
    (by simp [HasWords, Solid])

/-- A keyword in any letter case stands at the start of a text. -/
def IsAhead
    (table : KeywordTable)
    (text : List Char) :
    Prop :=
  ∃ keyword ∈ table.keywords, keyword <+: foldCase text

/-- A text that begins a keyword in any letter case and is not the whole of it. -/
structure IsStub
    (table : KeywordTable)
    (text : List Char) :
    Prop where
  nonempty : text ≠ []
  begins : ∃ keyword ∈ table.keywords, foldCase text <+: keyword ∧ foldCase text ≠ keyword

/-- A text ends in a number of stubs one directly after another, with no further one before them. -/
inductive EndsInStubs
    (table : KeywordTable) :
    List Char → Nat → Prop where
  | none
      {text : List Char}
      (noStub : ∀ before stub, text = before ++ stub → ¬ table.IsStub stub) :
      EndsInStubs table text 0
  | more
      {before stub : List Char}
      {count : Nat}
      (isStub : table.IsStub stub)
      (earlier : EndsInStubs table before count) :
      EndsInStubs table (before ++ stub) (count + 1)

/-- A text swallows the keyword directly behind it if it ends in an odd number of stubs. -/
def Swallows
    (table : KeywordTable)
    (before : List Char) :
    Prop :=
  ∃ count, count % 2 = 1 ∧ table.EndsInStubs before count

variable {table : KeywordTable}

/-! ## Keywords and stubs -/

/-- Where keywords are words, what begins one of them has no blank. -/
theorem HasWords.solid_of_foldCase_isPrefix
    (words : table.HasWords)
    {keyword text : List Char}
    (isKeyword : keyword ∈ table.keywords)
    (begins : foldCase text <+: keyword) :
    Solid text :=
  solid_foldCase_iff.mp fun c member => (words keyword isKeyword).2 c (begins.subset member)

/-- A text that is a keyword in any letter case is a word. -/
theorem HasWords.of_foldCase_mem
    (words : table.HasWords)
    {text : List Char}
    (isKeyword : foldCase text ∈ table.keywords) :
    text ≠ [] ∧ Solid text := by
  refine ⟨?_, words.solid_of_foldCase_isPrefix isKeyword (List.prefix_refl _)⟩
  rintro rfl
  exact (words _ isKeyword).1 rfl

/-- In a plain table marked keywords are words. -/
theorem IsMarked.hasWords
    (marked : table.IsMarked)
    (plain : table.IsPlain) :
    table.HasWords := by
  intro keyword isKeyword
  obtain ⟨tail, shape, _⟩ := marked.marked keyword isKeyword
  exact ⟨by simp [shape], fun c member => (plain keyword isKeyword c member).1⟩

/-- Where all keywords are marked, a text with a keyword ahead starts with the mark. -/
theorem exists_cons_of_isAhead
    (marked : ∀ keyword ∈ table.keywords, Text.IsMarked keyword)
    {text : List Char}
    (ahead : table.IsAhead text) :
    ∃ rest, text = '@' :: rest := by
  obtain ⟨keyword, isKeyword, ⟨behind, shape⟩⟩ := ahead
  obtain ⟨tail, rfl, _⟩ := marked keyword isKeyword
  obtain ⟨c, rest, rfl, isMark, _⟩ := List.map_eq_cons_iff.mp shape.symm
  exact ⟨rest, by rw [toLower_eq_mark_iff.mp isMark]⟩

/-- Where keywords are marked, a keyword ahead shows by its mark. -/
theorem IsMarked.of_isAhead
    (marked : table.IsMarked)
    {text : List Char}
    (ahead : table.IsAhead text) :
    ∃ rest, text = '@' :: rest :=
  exists_cons_of_isAhead marked.marked ahead

/-- What begins a marked keyword is marked itself. -/
theorem IsMarked.isMarked_of_prefix
    (marked : table.IsMarked)
    {keyword text : List Char}
    (isKeyword : keyword ∈ table.keywords)
    (nonempty : text ≠ [])
    (begins : foldCase text <+: keyword) :
    Text.IsMarked text := by
  obtain ⟨tail, rfl, noMark⟩ := marked.marked keyword isKeyword
  cases text with
  | nil => exact absurd rfl nonempty
  | cons c rest =>
      obtain ⟨isMark, restBegins⟩ := List.cons_prefix_cons.mp begins
      refine ⟨rest, by rw [toLower_eq_mark_iff.mp isMark], ?_⟩
      exact fun inRest => noMark (restBegins.subset (mark_mem_foldCase_iff.mpr inRest))

/-- The stubs of marked keywords are marked. -/
theorem IsMarked.of_isStub
    (marked : table.IsMarked)
    {stub : List Char}
    (isStub : table.IsStub stub) :
    Text.IsMarked stub := by
  obtain ⟨keyword, isKeyword, begins, _⟩ := isStub.begins
  exact marked.isMarked_of_prefix isKeyword isStub.nonempty begins

/-- No keyword stands at the start of a stub. -/
theorem IsMarked.not_isAhead_of_isStub
    (marked : table.IsMarked)
    {stub : List Char}
    (isStub : table.IsStub stub) :
    ¬ table.IsAhead stub := by
  rintro ⟨keyword, isKeyword, isPrefix⟩
  obtain ⟨other, isOther, begins, notWhole⟩ := isStub.begins
  have same := marked.apart keyword isKeyword other isOther (isPrefix.trans begins)
  subst same
  exact notWhole (begins.eq_of_length_le isPrefix.length_le)

/-- The front of a stub is a stub too. -/
theorem isStub_of_append
    {front back : List Char}
    (nonempty : front ≠ [])
    (isStub : table.IsStub (front ++ back)) :
    table.IsStub front where
  nonempty := nonempty
  begins := by
    obtain ⟨keyword, isKeyword, begins, notWhole⟩ := isStub.begins
    rw [foldCase_append] at begins notWhole
    have frontBegins : foldCase front <+: keyword := (List.prefix_append _ _).trans begins
    refine ⟨keyword, isKeyword, frontBegins, ?_⟩
    rintro rfl
    exact notWhole (begins.eq_of_length_le (by simp))

/-! ## Runs of stubs -/

/-- Every text ends in some number of stubs, which may be none. -/
theorem exists_endsInStubs
    (table : KeywordTable)
    (text : List Char) :
    ∃ count, table.EndsInStubs text count := by
  induction hasLength : text.length using Nat.strongRecOn generalizing text with
  | ind length inductionHypothesis =>
      by_cases noStub : ∀ before stub, text = before ++ stub → ¬ table.IsStub stub
      · exact ⟨0, .none noStub⟩
      · push Not at noStub
        obtain ⟨before, stub, rfl, isStub⟩ := noStub
        have shorter : before.length < length := by
          rw [← hasLength, List.length_append]
          exact Nat.lt_add_of_pos_right (List.length_pos_of_ne_nil isStub.nonempty)
        obtain ⟨count, earlier⟩ := inductionHypothesis _ shorter before rfl
        exact ⟨count + 1, .more isStub earlier⟩

/-- The stubs at the end of a text are determined, as each starts with the last mark. -/
theorem IsMarked.endsInStubs_unique
    (marked : table.IsMarked)
    {text : List Char}
    {count count' : Nat}
    (run : table.EndsInStubs text count)
    (run' : table.EndsInStubs text count') :
    count = count' := by
  induction run generalizing count' with
  | none noStub =>
      cases run' with
      | none => rfl
      | more isStub _ => exact absurd isStub (noStub _ _ rfl)
  | @more before stub count isStub _ inductionHypothesis =>
      generalize shape : before ++ stub = text at run'
      cases run' with
      | none noStub => exact absurd isStub (noStub _ _ shape.symm)
      | more isStub' earlier' =>
          obtain ⟨rfl, rfl⟩ :=
            (marked.of_isStub isStub).append_ext (marked.of_isStub isStub') shape
          rw [inductionHypothesis earlier']

/-- Behind a further stub a keyword is swallowed exactly where it was not before. -/
theorem IsMarked.swallows_append_iff
    (marked : table.IsMarked)
    {before stub : List Char}
    (isStub : table.IsStub stub) :
    table.Swallows (before ++ stub) ↔ ¬ table.Swallows before := by
  obtain ⟨count, run⟩ := table.exists_endsInStubs before
  have swallows_iff : ∀ {text : List Char} {total : Nat}, table.EndsInStubs text total →
      (table.Swallows text ↔ total % 2 = 1) := by
    intro text total totalRun
    constructor
    · rintro ⟨other, isOdd, otherRun⟩
      rwa [marked.endsInStubs_unique totalRun otherRun]
    · exact fun isOdd => ⟨total, isOdd, totalRun⟩
  rw [swallows_iff (.more isStub run), swallows_iff run]
  omega

/-- A text that ends in no stub swallows nothing. -/
theorem not_swallows_of_no_stub
    {text : List Char}
    (noStub : ∀ before stub, text = before ++ stub → ¬ table.IsStub stub) :
    ¬ table.Swallows text := by
  rintro ⟨count, isOdd, run⟩
  cases run with
  | none => cases isOdd
  | more isStub _ => exact noStub _ _ rfl isStub

/-- A further character other than the mark starts no stub. -/
theorem IsMarked.not_swallows_concat
    (marked : table.IsMarked)
    {text : List Char}
    (free : ¬ table.Swallows text)
    {c : Char}
    (noMark : c ≠ '@') :
    ¬ table.Swallows (text ++ [c]) := by
  rintro ⟨count, isOdd, run⟩
  generalize shape : text ++ [c] = longer at run
  cases run with
  | none => cases isOdd
  | @more before stub count isStub earlier =>
      obtain ⟨tail, rfl, _⟩ := marked.of_isStub isStub
      rcases List.eq_nil_or_concat tail with rfl | ⟨inner, final, rfl⟩
      · obtain ⟨_, sameLast⟩ := List.append_inj' shape rfl
        exact noMark (List.cons.inj sameLast).1
      · rw [List.concat_eq_append, ← List.cons_append, ← List.append_assoc] at shape
        obtain ⟨rfl, _⟩ := List.append_inj' shape rfl
        rw [List.concat_eq_append, ← List.cons_append] at isStub
        exact free
          ⟨count + 1, isOdd, .more (isStub_of_append (List.cons_ne_nil _ _) isStub) earlier⟩

/-! ## The search for keywords -/

/-- A buffer that has begun a keyword and is none is a stub. -/
theorem IsStub.of_begun
    {text : List Char}
    (nonempty : text ≠ [])
    (begun : table.extent text = .begun) :
    table.IsStub text where
  nonempty := nonempty
  begins := by
    unfold extent at begun
    split at begun
    · cases begun
    · rename_i notWhole
      split at begun
      · rename_i begins
        obtain ⟨keyword, isKeyword, isPrefix⟩ := List.any_eq_true.mp begins
        refine ⟨keyword, isKeyword, List.isPrefixOf_iff_prefix.mp isPrefix, ?_⟩
        rintro rfl
        exact notWhole isKeyword
      · cases begun

/-- A buffer apart from all keywords begins none of them. -/
theorem not_prefix_of_apart
    {text keyword : List Char}
    (apart : table.extent text = .apart)
    (isKeyword : keyword ∈ table.keywords) :
    ¬ foldCase text <+: keyword := by
  intro isPrefix
  unfold extent at apart
  split at apart
  · cases apart
  · split at apart
    · cases apart
    · rename_i notBegun
      exact notBegun (List.any_eq_true.mpr
        ⟨keyword, isKeyword, List.isPrefixOf_iff_prefix.mpr isPrefix⟩)

/-- A buffer that is whole is a keyword in lower case. -/
theorem keyword_of_whole
    {text : List Char}
    (whole : table.extent text = .whole) :
    foldCase text ∈ table.keywords :=
  (isSome_tag? table text).mp ((extent_eq_whole_iff table text).mp whole)

/-- What holds while a text is searched: the buffer is empty or a stub that is not swallowed. -/
structure Searches
    (table : KeywordTable)
    (before buffer : List Char) :
    Prop where
  free : ¬ table.Swallows before
  pending : buffer = [] ∨ table.IsStub buffer

/-- A search starts with nothing read and an empty buffer. -/
theorem searches_start :
    table.Searches [] [] where
  free := by
    apply not_swallows_of_no_stub
    intro before stub shape isStub
    exact isStub.nonempty (List.append_eq_nil_iff.mp shape.symm).2
  pending := Or.inl rfl

/-- A buffer that still begins a keyword keeps the search going. -/
theorem Searches.grow
    {before buffer : List Char}
    {c : Char}
    (searches : table.Searches before buffer)
    (begun : table.extent (buffer ++ [c]) = .begun) :
    table.Searches before (buffer ++ [c]) where
  free := searches.free
  pending := Or.inr (.of_begun (by simp) begun)

/-- A text whose last marked end is no stub swallows nothing. -/
theorem IsMarked.not_swallows_of_isMarked
    (marked : table.IsMarked)
    {before text : List Char}
    (isMarked : Text.IsMarked text)
    (noStub : ¬ table.IsStub text) :
    ¬ table.Swallows (before ++ text) := by
  apply not_swallows_of_no_stub
  intro before' stub shape isStub
  obtain ⟨_, rfl⟩ := isMarked.append_ext (marked.of_isStub isStub) shape
  exact noStub isStub

/-- Behind a keyword that is found, the search starts anew. -/
theorem Searches.find
    (marked : table.IsMarked)
    {before buffer : List Char}
    {c : Char}
    (whole : table.extent (buffer ++ [c]) = .whole) :
    table.Searches (before ++ (buffer ++ [c])) [] where
  free := by
    have isKeyword := keyword_of_whole whole
    apply marked.not_swallows_of_isMarked
    · exact marked.isMarked_of_prefix isKeyword (by simp) (List.prefix_refl _)
    · exact fun isStub => marked.not_isAhead_of_isStub isStub ⟨_, isKeyword, List.prefix_refl _⟩
  pending := Or.inl rfl

/-- Behind a buffer that is dropped, the search starts anew. -/
theorem Searches.drop
    (marked : table.IsMarked)
    {before buffer : List Char}
    {c : Char}
    (searches : table.Searches before buffer)
    (apart : table.extent (buffer ++ [c]) = .apart) :
    table.Searches (before ++ (buffer ++ [c])) [] where
  free := by
    have noStub : ¬ table.IsStub (buffer ++ [c]) := by
      intro isStub
      obtain ⟨keyword, isKeyword, begins, _⟩ := isStub.begins
      exact not_prefix_of_apart apart isKeyword begins
    by_cases isMark : c = '@'
    · subst isMark
      -- The dropped mark is a stub of its own, which makes the number of stubs even.
      rcases searches.pending with rfl | isStub
      · apply not_swallows_of_no_stub
        intro _ stub _ isStub
        obtain ⟨keyword, isKeyword, _⟩ := isStub.begins
        obtain ⟨tail, rfl, _⟩ := marked.marked keyword isKeyword
        exact not_prefix_of_apart apart isKeyword (List.prefix_append ['@'] tail)
      · obtain ⟨tail, rfl, _⟩ := marked.of_isStub isStub
        have markIsStub : table.IsStub ['@'] := isStub_of_append (List.cons_ne_nil _ _) isStub
        rw [← List.append_assoc, marked.swallows_append_iff markIsStub,
          marked.swallows_append_iff isStub, not_not]
        exact searches.free
    · rcases searches.pending with rfl | isStub
      · exact marked.not_swallows_concat searches.free isMark
      · obtain ⟨tail, rfl, noMark⟩ := marked.of_isStub isStub
        refine marked.not_swallows_of_isMarked ⟨tail ++ [c], rfl, ?_⟩ noStub
        simpa [noMark] using Ne.symm isMark
  pending := Or.inl rfl

/-! ## Where segments start -/

/-- The bytes at which the segments start that a search finds, its buffer starting at a byte. -/
def startsFrom
    (table : KeywordTable)
    (offset : Nat)
    (buffer text : List Char) :
    List Nat :=
  let division := table.divideFrom buffer text
  (Segment.ofParts (offset + byteWidth division.prose) division.parts).map Segment.start

/-- The segments of a text start where a search from its first byte finds keywords. -/
theorem startsFrom_zero_nil
    (table : KeywordTable)
    (text : List Char) :
    table.startsFrom 0 [] text = (table.segments text).map Segment.start := by
  rw [startsFrom, Nat.zero_add]
  rfl

/-- A buffer that begins no keyword is dropped as a whole, and the search goes on behind it. -/
theorem startsFrom_drop
    {buffer : List Char}
    {c : Char}
    (apart : table.extent (buffer ++ [c]) = .apart)
    (offset : Nat)
    (rest : List Char) :
    table.startsFrom offset buffer (c :: rest) =
      table.startsFrom (offset + byteWidth (buffer ++ [c])) [] rest := by
  simp only [startsFrom, divideFrom, apart, Division.prepend]
  rw [byteWidth_append, Nat.add_assoc]

/-- A buffer that begins a keyword takes the next character. -/
theorem startsFrom_grow
    {buffer : List Char}
    {c : Char}
    (begun : table.extent (buffer ++ [c]) = .begun)
    (offset : Nat)
    (rest : List Char) :
    table.startsFrom offset buffer (c :: rest) =
      table.startsFrom offset (buffer ++ [c]) rest := by
  simp only [startsFrom, divideFrom, begun]

/-- A buffer that has become a keyword starts a segment at its first byte. -/
theorem startsFrom_find
    {buffer : List Char}
    {c : Char}
    (whole : table.extent (buffer ++ [c]) = .whole)
    (startsSolid : StartsSolid (buffer ++ [c]))
    (offset : Nat)
    (rest : List Char) :
    table.startsFrom offset buffer (c :: rest) =
      offset :: table.startsFrom (offset + byteWidth (buffer ++ [c])) [] rest := by
  obtain ⟨first, tail, shape, solid⟩ := startsSolid
  have noBlank : ∀ content : List Char,
      ((buffer ++ [c]) ++ content).takeWhile isBlank = [] := by
    intro content
    simp [shape, solid]
  simp only [startsFrom, divideFrom, whole, Division.openPart, Segment.ofParts, Segment.ofPart,
    List.map_cons, noBlank]
  rw [byteWidth_append, byteWidth_nil, Nat.add_zero, ← Nat.add_assoc]

/-- A keyword stands at a byte of a text. -/
def OccursAt
    (table : KeywordTable)
    (text : List Char)
    (byte : Nat) :
    Prop :=
  ∃ before after, text = before ++ after ∧ byteWidth before = byte ∧ table.IsAhead after

/-- A keyword stands at a byte of a text and is not swallowed by what precedes it. -/
def FreeAt
    (table : KeywordTable)
    (earlier text : List Char)
    (byte : Nat) :
    Prop :=
  ∃ before after,
    text = before ++ after ∧
      byteWidth (earlier ++ before) = byte ∧
      table.IsAhead after ∧
      ¬ table.Swallows (earlier ++ before)

/-- A free keyword starts within the first of two texts or stands in the second one. -/
theorem freeAt_append_iff
    (earlier passed rest : List Char)
    (byte : Nat) :
    table.FreeAt earlier (passed ++ rest) byte ↔
      (∃ inner c outer,
        passed = inner ++ c :: outer ∧
          byteWidth (earlier ++ inner) = byte ∧
          table.IsAhead (c :: outer ++ rest) ∧
          ¬ table.Swallows (earlier ++ inner)) ∨
        table.FreeAt (earlier ++ passed) rest byte := by
  constructor
  · rintro ⟨before, after, shape, atByte, ahead, free⟩
    rcases List.append_eq_append_iff.mp shape with
      ⟨between, rfl, restShape⟩ | ⟨outer, passedShape, afterShape⟩
    · exact Or.inr ⟨between, after, restShape, by rwa [List.append_assoc], ahead,
        by rwa [List.append_assoc]⟩
    · cases outer with
      | nil =>
          rw [List.append_nil] at passedShape
          subst passedShape
          refine Or.inr ⟨[], rest, rfl, ?_, ?_, ?_⟩
          · rwa [List.append_nil]
          · rwa [afterShape, List.nil_append] at ahead
          · rwa [List.append_nil]
      | cons c outer =>
          rw [afterShape] at ahead
          exact Or.inl ⟨before, c, outer, passedShape, atByte, ahead, free⟩
  · rintro (⟨inner, c, outer, rfl, atByte, ahead, free⟩ | ⟨before, after, rfl, atByte, ahead, free⟩)
    · exact ⟨inner, c :: outer ++ rest, by simp, atByte, ahead, free⟩
    · rw [List.append_assoc] at atByte free
      exact ⟨passed ++ before, after, by simp, atByte, ahead, free⟩

/-- A keyword that is ahead within a marked text is ahead at its start. -/
theorem IsMarked.eq_nil_of_isAhead
    (marked : table.IsMarked)
    {inner outer rest : List Char}
    {c : Char}
    (isMarked : Text.IsMarked (inner ++ c :: outer))
    (ahead : table.IsAhead (c :: outer ++ rest)) :
    inner = [] := by
  obtain ⟨_, startsMarked⟩ := marked.of_isAhead ahead
  obtain ⟨rfl, _⟩ := List.cons.inj startsMarked
  exact isMarked.eq_nil_of_append

/-- In a search no keyword stands at the start of the buffer. -/
theorem Searches.not_isAhead
    (marked : table.IsMarked)
    {before buffer : List Char}
    (searches : table.Searches before buffer) :
    ¬ table.IsAhead buffer := by
  rcases searches.pending with rfl | isStub
  · intro ahead
    obtain ⟨_, shape⟩ := marked.of_isAhead ahead
    cases shape
  · exact marked.not_isAhead_of_isStub isStub

/-- No keyword starts where a buffer starts that is dropped. -/
theorem Searches.not_isAhead_drop
    (marked : table.IsMarked)
    {before buffer : List Char}
    {c : Char}
    (searches : table.Searches before buffer)
    (apart : table.extent (buffer ++ [c]) = .apart)
    (rest : List Char) :
    ¬ table.IsAhead (buffer ++ [c] ++ rest) := by
  rintro ⟨keyword, isKeyword, isPrefix⟩
  rw [foldCase_append] at isPrefix
  have notBegun := not_prefix_of_apart apart isKeyword
  rcases List.prefix_or_prefix_of_prefix isPrefix (List.prefix_append _ _) with inBuffer | begins
  · rw [foldCase_append, foldCase, foldCase, List.map_singleton, List.prefix_concat_iff] at inBuffer
    rcases inBuffer with rfl | inBuffer
    · exact notBegun (by simp [foldCase])
    · exact searches.not_isAhead marked ⟨keyword, isKeyword, inBuffer⟩
  · exact notBegun begins

/-- No free keyword starts within a buffer that is dropped. -/
theorem Searches.freeAt_drop_iff
    (marked : table.IsMarked)
    {before buffer : List Char}
    {c : Char}
    (searches : table.Searches before buffer)
    (apart : table.extent (buffer ++ [c]) = .apart)
    (rest : List Char)
    (byte : Nat) :
    table.FreeAt before (buffer ++ c :: rest) byte ↔
      table.FreeAt (before ++ (buffer ++ [c])) rest byte := by
  rw [List.append_cons, freeAt_append_iff, or_iff_right]
  rintro ⟨inner, mark, outer, shape, _, ahead, free⟩
  have notAtStart : inner ≠ [] := by
    rintro rfl
    rw [← List.nil_append (mark :: outer), ← shape] at ahead
    exact searches.not_isAhead_drop marked apart rest ahead
  rcases List.eq_nil_or_concat outer with rfl | ⟨within, last, rfl⟩
  · -- The keyword starts with the character at which the buffer is dropped.
    obtain ⟨rfl, _⟩ := List.append_inj' shape rfl
    have isStub := searches.pending.resolve_left notAtStart
    exact free ((marked.swallows_append_iff isStub).mpr searches.free)
  · rw [List.concat_eq_append, ← List.cons_append, ← List.append_assoc] at shape
    obtain ⟨rfl, _⟩ := List.append_inj' shape rfl
    have isStub := searches.pending.resolve_left (by simp)
    rw [List.concat_eq_append, ← List.cons_append, List.append_assoc] at ahead
    exact notAtStart (marked.eq_nil_of_isAhead (marked.of_isStub isStub) ahead)

/-- The only free keyword in a text that is found whole stands at its start. -/
theorem Searches.freeAt_find_iff
    (marked : table.IsMarked)
    {before buffer : List Char}
    {c : Char}
    (searches : table.Searches before buffer)
    (whole : table.extent (buffer ++ [c]) = .whole)
    (rest : List Char)
    (byte : Nat) :
    table.FreeAt before (buffer ++ c :: rest) byte ↔
      byte = byteWidth before ∨ table.FreeAt (before ++ (buffer ++ [c])) rest byte := by
  have isKeyword := keyword_of_whole whole
  have isMarked := marked.isMarked_of_prefix isKeyword (by simp) (List.prefix_refl _)
  rw [List.append_cons, freeAt_append_iff]
  refine or_congr_left ⟨?_, ?_⟩
  · rintro ⟨inner, mark, outer, shape, rfl, ahead, _⟩
    rw [shape] at isMarked
    rw [marked.eq_nil_of_isAhead isMarked ahead, List.append_nil]
  · rintro rfl
    obtain ⟨first, outer, shape⟩ := List.exists_cons_of_ne_nil (l := buffer ++ [c]) (by simp)
    refine ⟨[], first, outer, shape, by rw [List.append_nil], ?_, by
      rw [List.append_nil]
      exact searches.free⟩
    rw [← shape, IsAhead, foldCase_append]
    exact ⟨_, isKeyword, List.prefix_append _ _⟩

/-- The buffer of a search has no free keyword in it. -/
theorem Searches.not_freeAt_nil
    (marked : table.IsMarked)
    {before buffer : List Char}
    (searches : table.Searches before buffer)
    (byte : Nat) :
    ¬ table.FreeAt before buffer byte := by
  rintro ⟨inner, outer, rfl, _, ahead, _⟩
  obtain ⟨rest, rfl⟩ := marked.of_isAhead ahead
  have isStub := searches.pending.resolve_left (by simp)
  rw [← List.append_nil ('@' :: rest)] at ahead
  have atStart := marked.eq_nil_of_isAhead (marked.of_isStub isStub) ahead
  subst atStart
  rw [List.append_nil] at ahead
  exact marked.not_isAhead_of_isStub isStub ahead

/-- The segments that a search finds start at the free keywords. -/
theorem Searches.mem_startsFrom_iff
    (marked : table.IsMarked)
    {before buffer : List Char}
    (searches : table.Searches before buffer)
    (text : List Char)
    (byte : Nat) :
    byte ∈ table.startsFrom (byteWidth before) buffer text ↔
      table.FreeAt before (buffer ++ text) byte := by
  induction text generalizing before buffer with
  | nil =>
      rw [List.append_nil]
      exact iff_of_false List.not_mem_nil (searches.not_freeAt_nil marked byte)
  | cons c rest inductionHypothesis =>
      cases reach : table.extent (buffer ++ [c]) with
      | apart =>
          rw [startsFrom_drop reach, searches.freeAt_drop_iff marked reach, ← byteWidth_append,
            inductionHypothesis (searches.drop marked reach), List.nil_append]
      | begun =>
          rw [startsFrom_grow reach, inductionHypothesis (searches.grow reach), List.append_assoc,
            List.singleton_append]
      | whole =>
          have isMarked :=
            marked.isMarked_of_prefix (keyword_of_whole reach) (by simp) (List.prefix_refl _)
          rw [startsFrom_find reach isMarked.startsSolid, searches.freeAt_find_iff marked reach,
            List.mem_cons, ← byteWidth_append, inductionHypothesis (Searches.find marked reach),
            List.nil_append]

/-! ## All occurrences -/

/-- The segments of a text are the occurrences of keywords in it, and hold one each. -/
structure FindsOccurrences
    (table : KeywordTable)
    (text : List Char) :
    Prop where
  starts : ∀ byte, byte ∈ (table.segments text).map Segment.start ↔ table.OccursAt text byte
  ascending : (table.segments text).Pairwise fun segment later => segment.start < later.start
  single : ∀ segment ∈ table.segments text,
    table.IsAhead segment.text ∧
      ∀ before after, segment.text = before ++ after → table.IsAhead after → before = []
  prose : ∀ before after, (table.divide text).prose = before ++ after → ¬ table.IsAhead after

/-- A keyword that is ahead stays so, whatever follows the text. -/
theorem IsAhead.append
    {text : List Char}
    (ahead : table.IsAhead text)
    (behind : List Char) :
    table.IsAhead (text ++ behind) := by
  obtain ⟨keyword, isKeyword, isPrefix⟩ := ahead
  refine ⟨keyword, isKeyword, ?_⟩
  rw [foldCase_append]
  exact isPrefix.trans (List.prefix_append _ _)

/-- With marked keywords, segments start exactly at the keywords that nothing before swallows. -/
theorem IsMarked.mem_starts_iff
    (marked : table.IsMarked)
    (text : List Char)
    (byte : Nat) :
    byte ∈ (table.segments text).map Segment.start ↔ table.FreeAt [] text byte := by
  rw [← startsFrom_zero_nil]
  exact searches_start.mem_startsFrom_iff marked text byte

/-- Each part of a division starts with a keyword. -/
theorem exists_keyword_of_mem_divideFrom
    (buffer text : List Char) :
    ∀ part ∈ (table.divideFrom buffer text).parts,
      ∃ keyword content, part = keyword ++ content ∧ foldCase keyword ∈ table.keywords := by
  induction text generalizing buffer with
  | nil => simp [divideFrom]
  | cons c rest inductionHypothesis =>
      cases reach : table.extent (buffer ++ [c]) with
      | apart =>
          simp only [divideFrom, reach]
          exact inductionHypothesis []
      | begun =>
          simp only [divideFrom, reach]
          exact inductionHypothesis (buffer ++ [c])
      | whole =>
          simp only [divideFrom, reach]
          refine List.forall_mem_cons.mpr ⟨?_, inductionHypothesis []⟩
          exact ⟨buffer ++ [c], _, rfl, keyword_of_whole reach⟩

/-- Each segment starts with a keyword. -/
theorem HasWords.isAhead_of_mem_segments
    (words : table.HasWords)
    {text : List Char}
    {segment : Segment}
    (isSegment : segment ∈ table.segments text) :
    table.IsAhead segment.text := by
  obtain ⟨part, isPart, trimmed⟩ := exists_part_of_mem_segments isSegment
  obtain ⟨keyword, content, rfl, isKeyword⟩ :=
    exists_keyword_of_mem_divideFrom [] text part isPart
  obtain ⟨nonempty, solid⟩ := words.of_foldCase_mem isKeyword
  rw [← trimmed, trim_append solid nonempty]
  exact IsAhead.append ⟨_, isKeyword, List.prefix_refl _⟩ _

/-- With marked keywords, every segment starts at a later byte than the one before. -/
theorem IsMarked.pairwise_start
    (marked : table.IsMarked)
    (plain : table.IsPlain)
    (text : List Char) :
    (table.segments text).Pairwise fun segment later => segment.start < later.start := by
  refine (table.pairwise_segments text).imp_of_mem fun {segment later} isSegment _ apart => ?_
  obtain ⟨rest, shape⟩ :=
    marked.of_isAhead ((marked.hasWords plain).isAhead_of_mem_segments isSegment)
  have positive : 0 < byteWidth segment.text := byteWidth_pos (by simp [shape])
  exact Nat.lt_of_lt_of_le (Nat.lt_add_of_pos_right positive) apart

/-- A keyword within a segment and not at its start is not found. -/
theorem IsMarked.eq_nil_of_occurs_in_segment
    (marked : table.IsMarked)
    {text : List Char}
    {segment : Segment}
    (isSegment : segment ∈ table.segments text)
    (found : ∀ byte, table.OccursAt text byte →
      byte ∈ (table.segments text).map Segment.start)
    {before after : List Char}
    (shape : segment.text = before ++ after)
    (ahead : table.IsAhead after) :
    before = [] := by
  obtain ⟨outside, behind, textShape, atStart⟩ := place_of_mem_segments isSegment
  have occurs : table.OccursAt text (segment.start + byteWidth before) := by
    refine ⟨outside ++ before, after ++ behind, ?_, ?_, ahead.append behind⟩
    · simp [textShape, shape]
    · rw [byteWidth_append, atStart]
  obtain ⟨other, isOther, otherStart⟩ := List.mem_map.mp (found _ occurs)
  obtain ⟨rest, rfl⟩ := marked.of_isAhead ahead
  have afterPositive := byteWidth_pos (List.cons_ne_nil '@' rest)
  by_contra nonempty
  have beforePositive := byteWidth_pos nonempty
  rcases apart_of_mem_segments isSegment isOther with rfl | segmentFirst | otherFirst
  · omega
  · rw [Segment.stop, shape, byteWidth_append] at segmentFirst
    omega
  · rw [Segment.stop] at otherFirst
    omega

/--
The segments of a text are all its keyword occurrences exactly when no occurrence stands directly
behind an odd number of stubs.
-/
theorem IsMarked.findsOccurrences_iff
    (marked : table.IsMarked)
    (plain : table.IsPlain)
    (text : List Char) :
    table.FindsOccurrences text ↔
      ∀ before after, text = before ++ after → table.IsAhead after →
        ¬ table.Swallows before := by
  constructor
  · rintro finds before after rfl ahead
    obtain ⟨front, back, shape, sameWidth, _, free⟩ :=
      (marked.mem_starts_iff _ _).mp ((finds.starts _).mpr ⟨before, after, rfl, rfl, ahead⟩)
    obtain ⟨rfl, _⟩ := append_inj_of_byteWidth shape sameWidth.symm
    exact free
  · intro allFree
    have starts : ∀ byte,
        byte ∈ (table.segments text).map Segment.start ↔ table.OccursAt text byte := by
      intro byte
      rw [marked.mem_starts_iff]
      constructor
      · rintro ⟨before, after, shape, atByte, ahead, _⟩
        exact ⟨before, after, shape, atByte, ahead⟩
      · rintro ⟨before, after, shape, atByte, ahead⟩
        exact ⟨before, after, shape, atByte, ahead, allFree before after shape ahead⟩
    refine ⟨starts, marked.pairwise_start plain text, ?_, ?_⟩
    · intro segment isSegment
      refine ⟨(marked.hasWords plain).isAhead_of_mem_segments isSegment, ?_⟩
      intro before after shape ahead
      exact marked.eq_nil_of_occurs_in_segment isSegment (fun byte => (starts byte).mpr) shape ahead
    · intro before after shape ahead
      have occurs : table.OccursAt text (byteWidth before) := by
        refine ⟨before, after ++ (table.divide text).parts.flatten, ?_, rfl, ahead.append _⟩
        rw [← List.append_assoc, ← shape]
        exact (table.text_divide text).symm
      obtain ⟨segment, isSegment, atStart⟩ := List.mem_map.mp ((starts _).mpr occurs)
      have behindProse := Segment.start_ofParts_le isSegment
      obtain ⟨rest, rfl⟩ := marked.of_isAhead ahead
      have positive := byteWidth_pos (List.cons_ne_nil '@' rest)
      rw [shape, byteWidth_append] at behindProse
      omega

/-- The keywords of the standard table are marked, and none of them begins another. -/
theorem isMarked_standard :
    standard.IsMarked where
  marked := by decide
  apart := by decide

/--
With the standard keywords, segments start exactly at the keyword occurrences that are not swallowed
by an odd number of stubs directly before them.  So they are all occurrences, each alone in its
segment and none before the first one, exactly in texts in which no occurrence is swallowed.
-/
theorem findsOccurrences_standard_iff
    (text : List Char) :
    (∀ byte,
      byte ∈ (standard.segments text).map Segment.start ↔
        ∃ before after,
          text = before ++ after ∧
            byteWidth before = byte ∧
            standard.IsAhead after ∧
            ¬ standard.Swallows before) ∧
      (standard.FindsOccurrences text ↔
        ∀ before after, text = before ++ after → standard.IsAhead after →
          ¬ standard.Swallows before) :=
  ⟨isMarked_standard.mem_starts_iff text, isMarked_standard.findsOccurrences_iff (by decide) text⟩

/-- A stray mark directly before a keyword swallows the keyword. -/
theorem not_findsOccurrences_behind_mark :
    standard.segments "@@in x".toList = [] ∧
      standard.OccursAt "@@in x".toList 1 ∧
      ¬ standard.FindsOccurrences "@@in x".toList := by
  have noSegment : standard.segments "@@in x".toList = [] := by decide
  have occurs : standard.OccursAt "@@in x".toList 1 :=
    ⟨['@'], "@in x".toList, rfl, rfl, "@in".toList, by decide, by decide⟩
  refine ⟨noSegment, occurs, fun finds => ?_⟩
  have isStart := (finds.starts 1).mpr occurs
  rw [noSegment] at isStart
  cases isStart

end KeywordTable

end Flowmark
