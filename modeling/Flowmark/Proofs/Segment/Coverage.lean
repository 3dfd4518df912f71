import Flowmark.Proofs.Segment.Occurrence

namespace Flowmark

open Text

/-!
# Segments of arbitrary keyword tables

The keywords of a table may begin or overlap one another, as long as they are words.  The segments
then make up the text from the first of them on, but for the blanks between them.  Where no stub
ends the search has an empty buffer, so a keyword that stands there is found, or a shorter one that
begins it is.
-/

/-! ## Tiles -/

/-- From the byte at which the first segment starts, a text is segments with blanks behind them. -/
inductive Segment.Tiles : Nat → List Char → List Segment → Prop
  | nil (byte : Nat) : Tiles byte [] []
  | cons {segment : Segment} {gap rest : List Char} {segments : List Segment}
      (blank : ∀ c ∈ gap, isBlank c = true)
      (later : Tiles (segment.stop + byteWidth gap) rest segments) :
      Tiles segment.start (segment.text ++ (gap ++ rest)) (segment :: segments)

/-- Parts that do not start with a blank are covered by their segments, blanks between them
aside. -/
theorem Segment.tiles_ofParts
    (offset : Nat)
    {parts : List (List Char)}
    (startSolid : ∀ part ∈ parts, StartsSolid part) :
    Tiles offset parts.flatten (ofParts offset parts) := by
  induction parts generalizing offset with
  | nil => exact .nil offset
  | cons part parts inductionHypothesis =>
      rw [List.forall_mem_cons] at startSolid
      obtain ⟨c, rest, shape, solid⟩ := startSolid.1
      have notIndented : part.takeWhile isBlank = [] := by simp [shape, solid]
      have notTrimmed : trimStart part = part := by simp [trimStart, shape, solid]
      obtain ⟨gap, whole, blank⟩ := exists_append_trimEnd part
      have sameText : (ofPart offset part).text = trimEnd part := by
        simp [ofPart, trim, notTrimmed]
      have sameStart : (ofPart offset part).start = offset := by
        simp [ofPart, notIndented]
      have sameStop : (ofPart offset part).stop + byteWidth gap = offset + byteWidth part := by
        rw [stop, sameStart, sameText, Nat.add_assoc, ← byteWidth_append, ← whole]
      have flattened : (part :: parts).flatten =
          (ofPart offset part).text ++ (gap ++ parts.flatten) := by
        rw [List.flatten_cons, sameText, ← List.append_assoc, ← whole]
      have later : Tiles ((ofPart offset part).stop + byteWidth gap) parts.flatten
          (ofParts (offset + byteWidth part) parts) := by
        rw [sameStop]
        exact inductionHypothesis (offset + byteWidth part) startSolid.2
      have tiles := Tiles.cons blank later
      rw [sameStart] at tiles
      rw [flattened]
      exact tiles

/-- Behind a segment and blanks comes the end of the text or a further segment. -/
theorem Segment.Tiles.exists_behind
    {byte : Nat}
    {text : List Char}
    {segments : List Segment}
    (tiles : Tiles byte text segments)
    {segment : Segment}
    (isSegment : segment ∈ segments) :
    ∃ before gap rest,
      text = before ++ (segment.text ++ (gap ++ rest)) ∧
        byte + byteWidth before = segment.start ∧
        (∀ c ∈ gap, isBlank c = true) ∧
        (rest = [] ∨ ∃ next ∈ segments, next.text <+: rest) := by
  induction tiles with
  | nil => cases isSegment
  | @cons first gap rest segments blank later inductionHypothesis =>
      rcases List.mem_cons.mp isSegment with rfl | isLater
      · refine ⟨[], gap, rest, rfl, Nat.add_zero _, blank, ?_⟩
        generalize segment.stop + byteWidth gap = behind at later
        cases later with
        | nil => exact Or.inl rfl
        | cons _ _ => exact Or.inr ⟨_, by simp, List.prefix_append _ _⟩
      · obtain ⟨before, gap', rest', rfl, atStart, blank', behind⟩ := inductionHypothesis isLater
        refine ⟨first.text ++ (gap ++ before), gap', rest', by simp, ?_, blank', ?_⟩
        · rw [← atStart, Segment.stop, byteWidth_append, byteWidth_append]
          omega
        · refine behind.imp_right ?_
          rintro ⟨next, isNext, isPrefix⟩
          exact ⟨next, List.mem_cons_of_mem _ isNext, isPrefix⟩

namespace KeywordTable

variable {table : KeywordTable}

/-! ## Keywords behind an empty buffer -/

/-- A keyword of which the buffer is a beginning is found, or a shorter one is. -/
theorem HasWords.mem_startsFrom_of_isPrefix
    (words : table.HasWords)
    {keyword : List Char}
    (isKeyword : keyword ∈ table.keywords)
    (offset : Nat)
    {buffer text : List Char}
    (isPrefix : keyword <+: foldCase (buffer ++ text))
    (unfinished : buffer.length < keyword.length) :
    offset ∈ table.startsFrom offset buffer text := by
  induction text generalizing buffer with
  | nil =>
      have notLonger := isPrefix.length_le
      rw [List.append_nil, length_foldCase] at notLonger
      omega
  | cons c rest inductionHypothesis =>
      rw [List.append_cons] at isPrefix
      have begins : foldCase (buffer ++ [c]) <+: keyword := by
        refine List.prefix_of_prefix_length_le ?_ isPrefix ?_
        · rw [foldCase_append _ rest]
          exact List.prefix_append _ _
        · simpa using Nat.succ_le_of_lt unfinished
      cases reach : table.extent (buffer ++ [c]) with
      | apart => exact absurd begins (not_prefix_of_apart reach isKeyword)
      | begun =>
          rw [startsFrom_grow reach]
          refine inductionHypothesis isPrefix (Nat.lt_of_le_of_ne ?_ fun sameLength => ?_)
          · simpa using begins.length_le
          · have isWhole : foldCase (buffer ++ [c]) = keyword :=
              begins.eq_of_length (by rw [length_foldCase, sameLength])
            rw [extent, if_pos (isWhole ▸ isKeyword)] at reach
            cases reach
      | whole =>
          obtain ⟨nonempty, solid⟩ := words.of_foldCase_mem (keyword_of_whole reach)
          rw [startsFrom_find reach (startsSolid_of_solid solid nonempty)]
          exact List.mem_cons_self

/-- Where no stub ends the search is at the start of a keyword. -/
theorem HasWords.mem_startsFrom_of_noStub
    (words : table.HasWords)
    {after : List Char}
    (ahead : table.IsAhead after)
    (offset : Nat)
    {buffer before : List Char}
    (pending : buffer = [] ∨ table.IsStub buffer)
    (noStub : ∀ front stub, buffer ++ before = front ++ stub → ¬ table.IsStub stub) :
    offset + byteWidth (buffer ++ before) ∈ table.startsFrom offset buffer (before ++ after) := by
  -- The buffer stays empty or a stub, and at the keyword it is no stub any more.
  induction before generalizing offset buffer with
  | nil =>
      have isEmpty : buffer = [] := by
        refine pending.resolve_right fun isStub => ?_
        exact noStub [] buffer (List.append_nil buffer) isStub
      obtain ⟨keyword, isKeyword, isPrefix⟩ := ahead
      subst isEmpty
      exact words.mem_startsFrom_of_isPrefix isKeyword offset isPrefix
        (List.length_pos_of_ne_nil (words keyword isKeyword).1)
  | cons c before inductionHypothesis =>
      have restNoStub : ∀ front stub, [] ++ before = front ++ stub → ¬ table.IsStub stub := by
        rintro front stub shape
        refine noStub (buffer ++ [c] ++ front) stub ?_
        rw [List.nil_append] at shape
        simp [shape]
      have restFound :=
        inductionHypothesis (offset + byteWidth (buffer ++ [c])) (Or.inl rfl) restNoStub
      rw [List.nil_append, Nat.add_assoc, ← byteWidth_append, ← List.append_cons] at restFound
      cases reach : table.extent (buffer ++ [c]) with
      | apart =>
          rw [List.cons_append, startsFrom_drop reach]
          exact restFound
      | begun =>
          rw [List.append_cons] at noStub
          rw [List.cons_append, startsFrom_grow reach, List.append_cons buffer c before]
          exact inductionHypothesis offset (Or.inr (.of_begun (by simp) reach)) noStub
      | whole =>
          obtain ⟨nonempty, solid⟩ := words.of_foldCase_mem (keyword_of_whole reach)
          rw [List.cons_append, startsFrom_find reach (startsSolid_of_solid solid nonempty)]
          exact List.mem_cons_of_mem _ restFound

/-! ## What the segments of a text are -/

/--
The segments of a text start with keywords, lie in the text one after another, and make it up from
the first of them on but for blanks.  A segment starts at each keyword before which no stub ends,
such as one at the start of the text or behind a blank.
-/
structure CutsAtKeywords
    (table : KeywordTable)
    (text : List Char) :
    Prop where
  placed : ∀ segment ∈ table.segments text, ∃ before after,
    text = before ++ (segment.text ++ after) ∧ byteWidth before = segment.start
  apart : (table.segments text).Pairwise fun segment later => segment.stop ≤ later.start
  trimmed : ∀ segment ∈ table.segments text, StartsSolid segment.text ∧ EndsSolid segment.text
  complete : ∃ before rest,
    text = before ++ rest ∧ Segment.Tiles (byteWidth before) rest (table.segments text)
  opened : ∀ segment ∈ table.segments text, table.IsAhead segment.text
  found : ∀ before after,
    text = before ++ after →
      table.IsAhead after →
      (∀ front stub, before = front ++ stub → ¬ table.IsStub stub) →
      byteWidth before ∈ (table.segments text).map Segment.start
  foundBehindBlank : ∀ before after,
    text = before ++ after →
      table.IsAhead after →
      (∀ c ∈ before.getLast?, isBlank c = true) →
      byteWidth before ∈ (table.segments text).map Segment.start

/-- Where keywords are words, a text with a keyword ahead does not start with a blank. -/
theorem HasWords.startsSolid_of_isAhead
    (words : table.HasWords)
    {text : List Char}
    (ahead : table.IsAhead text) :
    StartsSolid text := by
  obtain ⟨keyword, isKeyword, behind, shape⟩ := ahead
  obtain ⟨nonempty, solid⟩ := words keyword isKeyword
  obtain ⟨c, keyword, rfl⟩ := List.exists_cons_of_ne_nil nonempty
  obtain ⟨d, rest, rfl, sameLetter, _⟩ := List.map_eq_cons_iff.mp shape.symm
  refine ⟨d, rest, rfl, ?_⟩
  rw [← isBlank_toLower, sameLetter]
  exact solid c (by simp)

/-- Where keywords are words, segments have blanks neither at their start nor at their end. -/
theorem HasWords.trimmed_of_mem_segments
    (words : table.HasWords)
    {text : List Char}
    {segment : Segment}
    (isSegment : segment ∈ table.segments text) :
    StartsSolid segment.text ∧ EndsSolid segment.text := by
  have startsSolid := words.startsSolid_of_isAhead (words.isAhead_of_mem_segments isSegment)
  refine ⟨startsSolid, ?_⟩
  obtain ⟨part, _, trimmed⟩ := exists_part_of_mem_segments isSegment
  obtain ⟨c, rest, shape, _⟩ := startsSolid
  rw [← trimmed] at shape ⊢
  have nonempty : trim part ≠ [] := by simp [shape]
  exact endsSolid_trimEnd nonempty

/-- From its first part on a text is its segments. -/
theorem HasWords.tiles_segments
    (words : table.HasWords)
    (text : List Char) :
    Segment.Tiles (byteWidth (table.divide text).prose) (table.divide text).parts.flatten
      (table.segments text) := by
  apply Segment.tiles_ofParts
  intro part isPart
  obtain ⟨keyword, content, rfl, isKeyword⟩ :=
    exists_keyword_of_mem_divideFrom [] text part isPart
  obtain ⟨nonempty, solid⟩ := words.of_foldCase_mem isKeyword
  obtain ⟨c, rest, rfl, notBlank⟩ := startsSolid_of_solid solid nonempty
  exact ⟨c, rest ++ content, rfl, notBlank⟩

/-- A stub does not end with a blank. -/
theorem HasWords.not_isStub_of_getLast?
    (words : table.HasWords)
    {before : List Char}
    (blank : ∀ c ∈ before.getLast?, isBlank c = true)
    {front stub : List Char}
    (shape : before = front ++ stub) :
    ¬ table.IsStub stub := by
  intro isStub
  obtain ⟨keyword, isKeyword, begins, _⟩ := isStub.begins
  have solid : Solid stub := words.solid_of_foldCase_isPrefix isKeyword begins
  obtain ⟨inner, c, rfl, notBlank⟩ := endsSolid_of_solid solid isStub.nonempty
  have isLast : c ∈ before.getLast? := by simp [shape]
  rw [blank c isLast] at notBlank
  cases notBlank

/-- A keyword is found where no stub stands directly before it. -/
theorem HasWords.found_of_noStub
    (words : table.HasWords)
    {before after : List Char}
    (ahead : table.IsAhead after)
    (noStub : ∀ front stub, before = front ++ stub → ¬ table.IsStub stub) :
    byteWidth before ∈ (table.segments (before ++ after)).map Segment.start := by
  rw [← startsFrom_zero_nil]
  simpa using words.mem_startsFrom_of_noStub ahead 0 (Or.inl rfl) noStub

/--
With any keywords that are words, a text is cut at keywords without loss, and every keyword that no
stub directly before it hides is found.
-/
theorem HasWords.cutsAtKeywords
    (words : table.HasWords)
    (text : List Char) :
    table.CutsAtKeywords text where
  placed := fun _ isSegment => place_of_mem_segments isSegment
  apart := table.pairwise_segments text
  trimmed := fun _ isSegment => words.trimmed_of_mem_segments isSegment
  complete :=
    ⟨(table.divide text).prose, (table.divide text).parts.flatten, (table.text_divide text).symm,
      words.tiles_segments text⟩
  opened := fun _ isSegment => words.isAhead_of_mem_segments isSegment
  found := by
    rintro before after rfl ahead noStub
    exact words.found_of_noStub ahead noStub
  foundBehindBlank := by
    rintro before after rfl ahead blank
    exact words.found_of_noStub ahead fun _ _ shape => words.not_isStub_of_getLast? blank shape

/-- Keywords that begin and overlap one another, with characters of several bytes. -/
theorem HasWords.cutsAtKeywords_overlapping :
    ∃ table : KeywordTable,
      table.HasWords ∧
        table.segments "é @É@in x\u3000@input".toList =
          [⟨"@É".toList, 3⟩, ⟨"@in x".toList, 6⟩, ⟨"@input".toList, 14⟩] ∧
        table.CutsAtKeywords "é @É@in x\u3000@input".toList :=
  ⟨.insertAll .empty [("@É", .uri), ("@in", .input), ("@input", .input), ("in@", .output)],
    by decide, by decide, HasWords.cutsAtKeywords (by decide) _⟩

end KeywordTable

end Flowmark
