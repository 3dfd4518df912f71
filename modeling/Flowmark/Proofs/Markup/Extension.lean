import Flowmark.Proofs.Markup.Clause
import Flowmark.Proofs.Segment.Coverage
import Flowmark.Proofs.Segment.Spelling

namespace Flowmark

open Text

/-!
# Keywords that extend other keywords

A segment is started by the shortest keyword that stands there, and its first word is looked up as a
whole.  Where keywords start with a mark that stands nowhere else in them, nothing in the rest of
the first word starts a further segment, so a keyword that extends others keeps its own tag.
-/

namespace Text

/-- A mark that does not stand before a marked word, nor behind it, stands at its start. -/
theorem IsMarked.eq_of_between
    {word before after front back : List Char}
    (marked : IsMarked word)
    (same : before ++ (word ++ after) = front ++ '@' :: back)
    (notBefore : byteWidth before ≤ byteWidth front)
    (notBehind : byteWidth front < byteWidth before + byteWidth word) :
    front = before := by
  rcases List.append_eq_append_iff.mp same with ⟨inner, rfl, shape⟩ | ⟨inner, rfl, _⟩
  · rcases List.append_eq_append_iff.mp shape with ⟨outer, rfl, _⟩ | ⟨outer, rfl, markShape⟩
    · rw [byteWidth_append, byteWidth_append] at notBehind
      omega
    · cases outer with
      | nil =>
          rw [List.append_nil, byteWidth_append] at notBehind
          omega
      | cons c outer =>
          obtain ⟨rfl, _⟩ := List.cons.inj markShape
          rw [marked.eq_nil_of_append, List.append_nil]
  · have noneBetween : inner = [] := by
      by_contra nonempty
      have positive := byteWidth_pos nonempty
      rw [byteWidth_append] at notBefore
      omega
    rw [noneBetween, List.append_nil]

end Text

/-- A segment whose first word has a tag is read under this tag, or lacks an argument. -/
theorem Clause.read_of_tag?
    {table : KeywordTable}
    {segment word : List Char}
    (head : headWord (trimStart segment) = word)
    {tag : Tag}
    (isTag : table.tag? word = some tag) :
    (∃ name details, read table segment = .ok ⟨tag, word, name, details⟩) ∨
      read table segment = .error (.missingArgument tag tag.expected) := by
  simp only [read, head, isTag]
  cases Argument.all (afterHeadWord (trimStart segment)) with
  | nil => exact Or.inr rfl
  | cons name details => exact Or.inl ⟨name, details, rfl⟩

namespace KeywordTable

/-- Each keyword is a mark with characters behind it that are neither marks nor blanks. -/
def HasMarkedWords
    (table : KeywordTable) :
    Prop :=
  ∀ keyword ∈ table.keywords, Text.IsMarked keyword ∧ Solid keyword

instance decidableHasMarkedWords
    (table : KeywordTable) :
    Decidable table.HasMarkedWords :=
  decidable_of_iff
    (∀ keyword ∈ table.keywords, Text.IsMarked keyword ∧ keyword.all (!isBlank ·) = true)
    (by simp [HasMarkedWords, Solid])

/--
A word at a byte of a text is read as a whole.  One segment starts there and none in the rest of the
word, which is the first word of the segment.  The segment is read under the tag of the whole word,
unless no argument follows.
-/
inductive ReadsWhole
    (table : KeywordTable)
    (text : List Char)
    (byte : Nat)
    (word : List Char) :
    Prop where
  | intro
      {segment : Segment}
      {tag : Tag}
      (isSegment : segment ∈ table.segments text)
      (atStart : segment.start = byte)
      (alone : ∀ other ∈ table.segments text,
        byte ≤ other.start → other.start < byte + byteWidth word → other = segment)
      (head : headWord segment.text = word)
      (isTag : table.tag? word = some tag)
      (outcome :
        (∃ name details, Clause.read table segment.text = .ok ⟨tag, word, name, details⟩) ∨
          Clause.read table segment.text = .error (.missingArgument tag tag.expected))

namespace HasMarkedWords

variable {table : KeywordTable} (marked : table.HasMarkedWords)

include marked

/-- Marked words are words. -/
theorem hasWords :
    table.HasWords :=
  fun keyword isKeyword => ⟨(marked keyword isKeyword).1.nonempty, (marked keyword isKeyword).2⟩

/-- Every segment starts with a mark. -/
theorem exists_cons_of_mem_segments
    {text : List Char}
    {segment : Segment}
    (isSegment : segment ∈ table.segments text) :
    ∃ rest, segment.text = '@' :: rest :=
  exists_cons_of_isAhead (fun keyword isKeyword => (marked keyword isKeyword).1)
    (marked.hasWords.isAhead_of_mem_segments isSegment)

/-- Behind a segment and blanks comes the end of the text or a mark. -/
theorem exists_behind_segment
    {text : List Char}
    {segment : Segment}
    (isSegment : segment ∈ table.segments text) :
    ∃ before behind,
      text = before ++ (segment.text ++ behind) ∧
        byteWidth before = segment.start ∧
        ∀ c ∈ behind.head?, isBlank c = true ∨ c = '@' := by
  obtain ⟨before, gap, rest, shape, atStart, blank, next⟩ :=
    (marked.hasWords.tiles_segments text).exists_behind isSegment
  refine ⟨(table.divide text).prose ++ before, gap ++ rest, ?_, ?_, ?_⟩
  · rw [List.append_assoc, ← shape]
    exact (table.text_divide text).symm
  · rw [byteWidth_append, atStart]
  · intro c isFirst
    cases gap with
    | cons d gap =>
        obtain rfl : d = c := by simpa using isFirst
        exact Or.inl (blank d List.mem_cons_self)
    | nil =>
        rcases next with rfl | ⟨next, isNext, behind, rfl⟩
        · simp at isFirst
        · obtain ⟨tail, nextShape⟩ := marked.exists_cons_of_mem_segments isNext
          simp only [nextShape, List.nil_append, List.cons_append, List.head?_cons,
            Option.mem_def, Option.some.injEq] at isFirst
          exact Or.inr isFirst.symm

/-- Two segments that start at the same byte are one. -/
theorem eq_of_start_eq
    {text : List Char}
    {first second : Segment}
    (isFirst : first ∈ table.segments text)
    (isSecond : second ∈ table.segments text)
    (sameStart : first.start = second.start) :
    first = second := by
  have isLong : ∀ segment ∈ table.segments text, segment.start < segment.stop := by
    intro segment isSegment
    obtain ⟨rest, shape⟩ := marked.exists_cons_of_mem_segments isSegment
    exact Nat.lt_add_of_pos_right (byteWidth_pos (by simp [shape]))
  have firstLong := isLong first isFirst
  have secondLong := isLong second isSecond
  rcases apart_of_mem_segments isFirst isSecond with same | firstEarlier | secondEarlier
  · exact same
  · omega
  · omega

/-- No segment starts in the rest of a marked word. -/
theorem start_eq_of_between
    {text before word after : List Char}
    (shape : text = before ++ (word ++ after))
    (isMarked : Text.IsMarked word)
    {other : Segment}
    (isOther : other ∈ table.segments text)
    (notBefore : byteWidth before ≤ other.start)
    (notBehind : other.start < byteWidth before + byteWidth word) :
    other.start = byteWidth before := by
  obtain ⟨front, behind, otherShape, atStart⟩ := place_of_mem_segments isOther
  obtain ⟨tail, startsMarked⟩ := marked.exists_cons_of_mem_segments isOther
  rw [startsMarked, shape] at otherShape
  rw [← atStart] at notBefore notBehind ⊢
  rw [isMarked.eq_of_between otherShape notBefore notBehind]

/-- A segment that starts where a marked word stands has this word as its first one. -/
theorem headWord_of_start
    {text before word after : List Char}
    (shape : text = before ++ (word ++ after))
    (isMarked : Text.IsMarked word)
    (solid : Solid word)
    (detached : Detached after)
    {segment : Segment}
    (isSegment : segment ∈ table.segments text)
    (atStart : segment.start = byteWidth before) :
    headWord segment.text = word := by
  obtain ⟨front, behind, segmentShape, isFront, stops⟩ := marked.exists_behind_segment isSegment
  rw [shape] at segmentShape
  obtain ⟨_, same⟩ := append_inj_of_byteWidth segmentShape (atStart.symm.trans isFront.symm)
  rcases List.append_eq_append_iff.mp same with
    ⟨rest, segmentText, rfl⟩ | ⟨rest, rfl, behindShape⟩
  · have restDetached : Detached rest := by
      intro c isFirst
      exact detached c (by simp [List.head?_append, Option.mem_def.mp isFirst])
    rw [segmentText, headWord_append solid restDetached]
  · -- A shorter segment would stop within the word, where neither a blank nor a mark follows.
    cases rest with
    | nil =>
        rw [List.append_nil] at solid ⊢
        have whole := headWord_append solid detached_nil
        rwa [List.append_nil] at whole
    | cons c rest =>
        exfalso
        rcases stops c (by simp [behindShape]) with blank | rfl
        · have notBlank := solid c (by simp)
          rw [blank] at notBlank
          cases notBlank
        · obtain ⟨tail, nonempty⟩ := marked.exists_cons_of_mem_segments isSegment
          have isNil := isMarked.eq_nil_of_append
          rw [nonempty] at isNil
          cases isNil

/--
Where every keyword is a mark with a word behind it, a keyword that stands as a whole word at the
start of a text or behind a blank is read as a whole, whatever keywords begin it.
-/
theorem readsWhole
    {before rest : List Char}
    (blank : ∀ c ∈ before.getLast?, isBlank c = true)
    (isKeyword : foldCase (headWord rest) ∈ table.keywords) :
    table.ReadsWhole (before ++ rest) (byteWidth before) (headWord rest) := by
  obtain ⟨foldedMarked, foldedSolid⟩ := marked _ isKeyword
  have isMarked := isMarked_foldCase_iff.mp foldedMarked
  have solid := solid_headWord rest
  have shape : before ++ rest = before ++ (headWord rest ++ afterHeadWord rest) := by
    rw [headWord_append_afterHeadWord]
  have ahead : table.IsAhead rest := by
    refine ⟨_, isKeyword, ?_⟩
    conv_rhs => rw [← headWord_append_afterHeadWord rest, foldCase_append]
    exact List.prefix_append _ _
  obtain ⟨segment, isSegment, atStart⟩ := List.mem_map.mp
    (marked.hasWords.found_of_noStub ahead fun _ _ =>
      marked.hasWords.not_isStub_of_getLast? blank)
  have head := marked.headWord_of_start shape isMarked solid (detached_afterHeadWord rest)
    isSegment atStart
  obtain ⟨tag, isTag⟩ := Option.isSome_iff_exists.mp ((table.isSome_tag? _).mpr isKeyword)
  refine .intro isSegment atStart ?_ head isTag ?_
  · intro other isOther notBefore notBehind
    have sameStart := marked.start_eq_of_between shape isMarked isOther notBefore notBehind
    exact marked.eq_of_start_eq isOther isSegment (sameStart.trans atStart.symm)
  · refine Clause.read_of_tag? ?_ isTag
    rw [trimStart_of_mem_segments isSegment, head]

end HasMarkedWords

/-- The keyword of a further spelling, of which two other keywords are beginnings. -/
theorem HasMarkedWords.readsWhole_extended :
    ∃ table : KeywordTable,
      table.HasMarkedWords ∧
        table.keywords = ["@in".toList, "@input".toList, "@inputs".toList] ∧
        table.segments "a @Inputs x@in".toList = [⟨"@Inputs x".toList, 2⟩, ⟨"@in".toList, 11⟩] ∧
        table.tag? "@Inputs".toList = some .parameter ∧
        table.ReadsWhole "a @Inputs x@in".toList 2 "@Inputs".toList := by
  refine ⟨.insertAll .empty [("@in", .input), ("@input", .output), ("@inputs", .parameter)],
    by decide, by decide, by decide, by decide, ?_⟩
  have blank : ∀ c ∈ "a ".toList.getLast?, isBlank c = true := by
    rintro c ⟨⟩
    rfl
  exact @HasMarkedWords.readsWhole _ (by decide) _ "@Inputs x@in".toList blank (by decide)

end KeywordTable

end Flowmark
