import Flowmark.Proofs.Markup.Outcome
import Flowmark.Proofs.Markup.Qualification
import Flowmark.Proofs.Segment.Place

namespace Flowmark

open Text

/-!
# Reading on after faults

An extraction may go on with further comments after one of them was faulty.  Every comment adds the
marks of its segments up to the first that fails, as if it ended there, and the marks stay numbered
and attached to the nearest primaries before them.
-/

namespace Mark

/-- Behind other marks, a mark stands for itself or modifies the nearest primary among them. -/
inductive FitsBehind
    (before : List Mark)
    (mark : Mark) :
    Prop where
  | primary
      (isPrimary : mark.isQualifier = false)
      (free : mark.qualifies = none)
  | qualifier
      {nearest : Mark}
      (isQualifier : mark.isQualifier = true)
      (found : LastWith isPrimary before (some nearest))
      (target : mark.qualifies = some nearest.id)

/-- The latest primary of marks is the last of them that stands for itself, if there is one. -/
theorem exists_latest
    (marks : List Mark) :
    ∃ last?, LastWith isPrimary marks last? ∧ latestFrom none marks = last?.map (·.id) :=
  ⟨_, lastWith_getLast?_filter _ _, latestFrom_eq marks⟩

/-- Where all marks are attached, each fits behind those before it. -/
theorem AttachedFrom.fitsBehind
    {marks before after : List Mark}
    {mark : Mark}
    (attached : AttachedFrom none marks)
    (shape : marks = before ++ mark :: after) :
    mark.FitsBehind before := by
  rw [shape, attachedFrom_append, AttachedFrom] at attached
  obtain ⟨_, attachedRest⟩ := attached
  cases kind : mark.isQualifier with
  | false =>
      rw [if_neg (by simp [kind])] at attachedRest
      exact .primary kind attachedRest.1
  | true =>
      rw [if_pos kind] at attachedRest
      obtain ⟨present, target, _⟩ := attachedRest
      obtain ⟨last?, isLast, latest⟩ := exists_latest before
      rw [latest] at present target
      cases last? with
      | none => exact absurd rfl present
      | some nearest => exact .qualifier kind isLast target

end Mark

/-- A comment without what stands from one of its segments on. -/
inductive Comment.EndedBefore
    (comment : Comment)
    (segment : Segment) :
    Comment → Prop where
  | intro
      {front gap back : List Char}
      (shape : comment.text.toList = front ++ (gap ++ (segment.text ++ back)))
      (blank : ∀ c ∈ gap, isBlank c = true)
      (place : byteWidth (front ++ gap) = segment.start) :
      EndedBefore comment segment { comment with text := String.ofList front }

/-- Later segments of a comment have their ranks behind those of the earlier ones. -/
theorem Comment.placeFrom_append
    (comment : Comment)
    (rank : Nat)
    (first second : List Segment) :
    comment.placeFrom rank (first ++ second) =
      comment.placeFrom rank first ++ comment.placeFrom (rank + first.length) second := by
  rw [placeFrom, List.zipIdx_append, List.map_append]
  rfl

namespace PlacedSegment

variable {table : KeywordTable}

/-- What segments are read as is made up of what the first and the later ones are read as. -/
theorem ReadsAs.split
    {earlier marks : List Mark}
    {first second : List PlacedSegment}
    (readsAs : ReadsAs table earlier (first ++ second) marks) :
    ∃ firstMarks secondMarks,
      marks = firstMarks ++ secondMarks ∧
        ReadsAs table earlier first firstMarks ∧
        ReadsAs table (earlier ++ firstMarks) second secondMarks := by
  induction first generalizing earlier marks with
  | nil => exact ⟨[], marks, rfl, .nil, by rwa [List.append_nil]⟩
  | cons placed first inductionHypothesis =>
      cases readsAs with
      | @cons _ _ _ _ mark isMark rest =>
          obtain ⟨firstMarks, secondMarks, rfl, readsFirst, readsSecond⟩ := inductionHypothesis rest
          refine ⟨mark :: firstMarks, secondMarks, rfl, .cons isMark readsFirst, ?_⟩
          rwa [List.append_cons]

/-- There is one mark for each segment. -/
theorem ReadsAs.length_eq
    {earlier marks : List Mark}
    {segments : List PlacedSegment}
    (readsAs : ReadsAs table earlier segments marks) :
    marks.length = segments.length := by
  have sameLocations := congrArg List.length readsAs.map_location
  rwa [List.length_map, List.length_map] at sameLocations

end PlacedSegment

namespace Extraction

open PlacedSegment

/-- The state after comments were handed over one after another, faulty ones included. -/
def addEach
    (table : KeywordTable)
    (extraction : Extraction)
    (comments : List Comment) :
    Extraction :=
  comments.foldl (fun extraction comment => (extraction.addComment table comment).1) extraction

/-- Marks are numbered by their positions and attached, and the latest primary is remembered. -/
structure IsConsistent
    (extraction : Extraction) :
    Prop where
  numbered : ∀ index mark,
    extraction.transcript.marks[index]? = some mark → mark.id = index + 1
  fits : ∀ before mark after,
    extraction.transcript.marks = before ++ mark :: after → mark.FitsBehind before
  latest : ∃ last?,
    LastWith Mark.isPrimary extraction.transcript.marks last? ∧
      extraction.latestPrimary = last?.map (·.id)

/--
What a comment contributes behind given segments: a mark for each of its segments, or the marks of
those before the first that fails.  Then the state is the one after a comment that ends there.
-/
inductive Contributes
    (table : KeywordTable)
    (done : List PlacedSegment)
    (extraction : Extraction)
    (comment : Comment) :
    Extraction × Except Fault Nat → Prop where
  | all
      {next : Extraction}
      {marks : List Mark}
      (added : next.transcript.marks = extraction.transcript.marks ++ marks)
      (readsAs : ReadsAs table extraction.transcript.marks (comment.placedSegments table) marks)
      (one : marks.length = (table.segments comment.text.toList).length) :
      Contributes table done extraction comment (next, .ok marks.length)
  | upTo
      {next : Extraction}
      {marks : List Mark}
      {read later : List PlacedSegment}
      {failed : PlacedSegment}
      {cause : Fault.Cause}
      {ended : Comment}
      (shape : comment.placedSegments table = read ++ failed :: later)
      (added : next.transcript.marks = extraction.transcript.marks ++ marks)
      (readsAs : ReadsAs table extraction.transcript.marks read marks)
      (rejected : Rejected table (done ++ read) failed cause)
      (endedBefore : comment.EndedBefore failed.segment ended)
      (asIfEnded : extraction.addComment table ended = (next, .ok marks.length)) :
      Contributes table done extraction comment (next, .error ⟨failed.location, cause⟩)

variable {table : KeywordTable}

/-- A state with attached marks is consistent. -/
theorem IsAttached.isConsistent
    {extraction : Extraction}
    (attached : extraction.IsAttached) :
    extraction.IsConsistent where
  numbered := fun _ _ found => extraction.transcript.id_of_getElem? found
  fits := fun _ _ _ shape => attached.attached.fitsBehind shape
  latest := by
    rw [attached.latest]
    exact Mark.exists_latest _

/-- The marks that were added are those of the segments that were read since. -/
theorem HasRead.exists_added
    {done read : List PlacedSegment}
    {extraction next : Extraction}
    (hasRead : HasRead table done extraction)
    (hasReadOn : HasRead table (done ++ read) next) :
    ∃ marks,
      next.transcript.marks = extraction.transcript.marks ++ marks ∧
        ReadsAs table extraction.transcript.marks read marks := by
  obtain ⟨earlier, marks, shape, readsEarlier, readsAs⟩ := hasReadOn.marks.split
  obtain rfl := readsEarlier.unique hasRead.marks
  exact ⟨marks, shape, readsAs⟩

/-- Only the place of a comment counts while its segments are read. -/
theorem addSegments_retext
    (comment : Comment)
    (text : String)
    (rank : Nat)
    (extraction : Extraction)
    (segments : List Segment) :
    addSegments table { comment with text := text } rank extraction segments =
      addSegments table comment rank extraction segments := by
  induction segments generalizing rank extraction with
  | nil => rfl
  | cons segment segments inductionHypothesis =>
      have samePlace :
          segmentLocation { comment with text := text } rank = segmentLocation comment rank := rfl
      simp only [addSegments, samePlace, inductionHypothesis]

/-- Segments of a comment are read to the end, or up to the first that fails. -/
theorem HasRead.addSegments_outcome
    {done : List PlacedSegment}
    {extraction : Extraction}
    (hasRead : HasRead table done extraction)
    (comment : Comment)
    (rank : Nat)
    (segments : List Segment) :
    (∃ next,
      addSegments table comment rank extraction segments = (next, none) ∧
        HasRead table (done ++ comment.placeFrom rank segments) next) ∨
      ∃ next read segment later cause,
        segments = read ++ segment :: later ∧
          addSegments table comment rank extraction read = (next, none) ∧
          HasRead table (done ++ comment.placeFrom rank read) next ∧
          Rejected table (done ++ comment.placeFrom rank read)
            ⟨segmentLocation comment (rank + read.length), segment⟩ cause ∧
          addSegments table comment rank extraction segments =
            (next, some ⟨segmentLocation comment (rank + read.length), cause⟩) := by
  have noneRead : ∀ done : List PlacedSegment, ∀ rank, done ++ comment.placeFrom rank [] = done :=
    fun done _ => List.append_nil done
  -- With each segment that is read, what was read before and the rank grow.
  induction segments generalizing done rank extraction with
  | nil => exact Or.inl ⟨extraction, rfl, by rwa [noneRead]⟩
  | cons segment segments inductionHypothesis =>
      let placed : PlacedSegment := ⟨segmentLocation comment rank, segment⟩
      have placedFirst : ∀ more,
          done ++ comment.placeFrom rank (segment :: more) =
            done ++ [placed] ++ comment.placeFrom (rank + 1) more :=
        fun more => List.append_cons done placed (comment.placeFrom (rank + 1) more)
      cases added : extraction.addSegment table placed.location placed.segment with
      | error fault =>
          obtain ⟨location, cause⟩ := fault
          obtain ⟨rfl, rejected⟩ := hasRead.rejected added
          refine Or.inr ⟨extraction, [], segment, segments, cause, rfl, rfl, ?_, ?_, ?_⟩
          · rwa [noneRead]
          · rwa [noneRead]
          · simp only [addSegments, placed] at added ⊢
            rw [added]
            rfl
      | ok following =>
          have continues : ∀ more,
              addSegments table comment rank extraction (segment :: more) =
                addSegments table comment (rank + 1) following more := by
            intro more
            simp only [placed] at added
            rw [addSegments, added]
          rcases inductionHypothesis (hasRead.addSegment added) (rank + 1) with
            ⟨next, readAll, hasReadAll⟩ |
            ⟨next, read, failed, later, cause, rfl, readSome, hasReadSome, rejected, stopped⟩
          · exact Or.inl ⟨next, (continues segments).trans readAll, by rwa [placedFirst]⟩
          · have place : rank + 1 + read.length = rank + (segment :: read).length := by
              rw [List.length_cons]
              omega
            rw [place] at rejected stopped
            rw [← placedFirst] at hasReadSome rejected
            exact Or.inr ⟨next, segment :: read, failed, later, cause, rfl,
              (continues read).trans readSome, hasReadSome, rejected, (continues _).trans stopped⟩

/-- A comment contributes its marks, whether it is faulty or not. -/
theorem HasRead.contributes
    {done : List PlacedSegment}
    {extraction : Extraction}
    (hasRead : HasRead table done extraction)
    (comment : Comment) :
    Contributes table done extraction comment (extraction.addComment table comment) ∧
      ∃ read, HasRead table (done ++ read) (extraction.addComment table comment).1 := by
  rcases hasRead.addSegments_outcome comment 1 (table.segments comment.text.toList) with
    ⟨next, readAll, hasReadAll⟩ |
    ⟨next, read, segment, later, cause, shape, readSome, hasReadSome, rejected, stopped⟩
  · obtain ⟨marks, added, readsAs⟩ := hasRead.exists_added hasReadAll
    have one : marks.length = (table.segments comment.text.toList).length := by
      rw [readsAs.length_eq, Comment.placeFrom, List.length_map, List.length_zipIdx]
    have answer : extraction.addComment table comment = (next, .ok marks.length) := by
      simp only [addComment, readAll, one]
    rw [answer]
    exact ⟨.all added readsAs one, _, hasReadAll⟩
  · obtain ⟨marks, added, readsAs⟩ := hasRead.exists_added hasReadSome
    obtain ⟨front, gap, back, text, blank, place, frontSegments⟩ :=
      KeywordTable.exists_text_of_segments_eq shape
    have answer : extraction.addComment table comment =
        (next, .error ⟨segmentLocation comment (1 + read.length), cause⟩) := by
      simp only [addComment, stopped]
    have asIfEnded :
        extraction.addComment table { comment with text := String.ofList front } =
          (next, .ok marks.length) := by
      have one : marks.length = read.length := by
        rw [readsAs.length_eq, Comment.placeFrom, List.length_map, List.length_zipIdx]
      simp only [addComment, String.toList_ofList, frontSegments, addSegments_retext, readSome, one]
    have placedShape :
        comment.placedSegments table =
          comment.placeFrom 1 read ++
            ⟨segmentLocation comment (1 + read.length), segment⟩ ::
              comment.placeFrom (1 + read.length + 1) later := by
      rw [Comment.placedSegments, shape, Comment.placeFrom_append]
      rfl
    rw [answer]
    exact ⟨.upTo placedShape added readsAs rejected (.intro text blank place) asIfEnded,
      _, hasReadSome⟩

/-- After any comments, what is read are the marks of some more segments. -/
theorem exists_hasRead_addEach
    {done : List PlacedSegment}
    {extraction : Extraction}
    (hasRead : HasRead table done extraction)
    (comments : List Comment) :
    ∃ read, HasRead table (done ++ read) (extraction.addEach table comments) := by
  induction comments generalizing done extraction with
  | nil => exact ⟨[], by rwa [List.append_nil]⟩
  | cons comment comments inductionHypothesis =>
      obtain ⟨_, read, hasReadNext⟩ := hasRead.contributes comment
      obtain ⟨later, hasReadAll⟩ := inductionHypothesis hasReadNext
      exact ⟨read ++ later, by rwa [← List.append_assoc]⟩

/--
After any comments, faulty ones included, the marks are numbered and attached and the latest primary
is remembered.  A further comment keeps all marks and adds one for each of its segments, or those of
the segments before the first that fails and the fault of that one.
-/
theorem consistent_addEach
    (table : KeywordTable)
    (comments : List Comment)
    (comment : Comment) :
    (start.addEach table comments).IsConsistent ∧
      ∃ done,
        ReadsAs table [] done (start.addEach table comments).transcript.marks ∧
          Contributes table done (start.addEach table comments) comment
            ((start.addEach table comments).addComment table comment) := by
  obtain ⟨done, hasRead⟩ := exists_hasRead_addEach (hasRead_start table) comments
  exact ⟨hasRead.attached.isConsistent, [] ++ done, hasRead.marks, (hasRead.contributes comment).1⟩

end Extraction

end Flowmark
