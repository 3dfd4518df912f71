import Mathlib
import Flowmark.Proofs.Comment.Order
import Flowmark.Proofs.Markup.Outcome
import Flowmark.Proofs.Model.Placement
import Flowmark.Run

namespace Flowmark

/-!
# The order of comments

A run reads the texts of its comments in the order of their keys.  The keys decide that order and
the places of marks and faults, and nothing else.
-/

/-- Outcomes that are alike: results that are, or faults that differ in the places they name. -/
inductive Fault.Alike
    {α : Type}
    (alike : α → α → Prop) :
    Except Fault α → Except Fault α → Prop where
  | ok
      {first second : α}
      (areAlike : alike first second) :
      Alike alike (.ok first) (.ok second)
  | error
      {first second : Fault}
      (sameButPlaces : first.unplaced = second.unplaced) :
      Alike alike (.error first) (.error second)

/-- Results that agree up to the places of faults are alike. -/
theorem Fault.alike_of_mapError_eq
    {α : Type}
    {first second : Except Fault α}
    (same : first.mapError Fault.unplaced = second.mapError Fault.unplaced) :
    Alike (· = ·) first second := by
  cases first with
  | error fault =>
      cases second with
      | error fault' => exact .error (Except.error.inj same)
      | ok value' => cases same
  | ok value =>
      cases second with
      | error fault' => cases same
      | ok value' => exact .ok (Except.ok.inj same)

namespace Extraction

/-- The states have the same marks but for their places. -/
structure SameButPlaces
    (first second : Extraction) :
    Prop where
  marks :
    first.transcript.marks.map Mark.unplaced = second.transcript.marks.map Mark.unplaced
  latest : first.latestPrimary = second.latestPrimary

/-- States that differ in places only have the same next number. -/
theorem SameButPlaces.nextId
    {first second : Extraction}
    (same : SameButPlaces first second) :
    first.transcript.nextId = second.transcript.nextId := by
  have sameLength := congrArg List.length same.marks
  rw [List.length_map, List.length_map] at sameLength
  rw [Transcript.nextId, Transcript.nextId, Transcript.size, Transcript.size, sameLength]

/-- A clause is added alike to states that differ in places only. -/
theorem SameButPlaces.addClause
    {first second : Extraction}
    (same : SameButPlaces first second)
    (place place' : Location)
    (clause : Clause) :
    Fault.Alike SameButPlaces (first.addClause place clause) (second.addClause place' clause) := by
  unfold Extraction.addClause
  rw [same.latest, same.nextId]
  cases clause.tag.isQualifier with
  | false =>
      refine .ok ⟨?_, rfl⟩
      simp only [Transcript.push, List.map_append, same.marks, same.nextId]
      rfl
  | true =>
      cases second.latestPrimary with
      | none => exact .error rfl
      | some primary =>
          refine .ok ⟨?_, rfl⟩
          simp only [Transcript.push, List.map_append, same.marks, same.nextId]
          rfl

/-- A segment is added alike to states that differ in places only. -/
theorem SameButPlaces.addSegment
    {table : KeywordTable}
    {first second : Extraction}
    (same : SameButPlaces first second)
    (place place' : Location)
    (segment : Segment) :
    Fault.Alike SameButPlaces
      (first.addSegment table place segment) (second.addSegment table place' segment) := by
  unfold Extraction.addSegment
  cases read : Clause.read table segment.text with
  | ok clause => exact same.addClause place place' clause
  | error cause => exact .error rfl

/-- Segments are read alike from states that differ in places only. -/
theorem SameButPlaces.read
    {table : KeywordTable}
    {first second : Extraction}
    (same : SameButPlaces first second)
    {segments segments' : List PlacedSegment}
    (sameSegments :
      segments.map PlacedSegment.segment = segments'.map PlacedSegment.segment) :
    Fault.Alike SameButPlaces (first.read table segments) (second.read table segments') := by
  induction segments generalizing segments' first second with
  | nil =>
      rw [List.map_nil, eq_comm, List.map_eq_nil_iff] at sameSegments
      subst sameSegments
      exact .ok same
  | cons placed segments inductionHypothesis =>
      obtain ⟨placed', rest', rfl, sameSegment, sameRest⟩ :=
        List.map_eq_cons_iff.mp sameSegments.symm
      rw [Extraction.read, Extraction.read, sameSegment]
      have added : Fault.Alike SameButPlaces
          (first.addSegment table placed.location placed.segment)
          (second.addSegment table placed'.location placed.segment) :=
        same.addSegment placed.location placed'.location placed.segment
      generalize first.addSegment table placed.location placed.segment = outcome at *
      generalize second.addSegment table placed'.location placed.segment = outcome' at *
      cases added with
      | ok same => exact inductionHypothesis same sameRest.symm
      | error sameFault => exact .error sameFault

end Extraction

namespace KeywordTable

/-- The segments of comments depend on their texts in the order of their keys. -/
theorem map_segment_placedSegments
    (table : KeywordTable)
    (comments : List Comment) :
    (table.placedSegments comments).map PlacedSegment.segment =
      ((Comment.sort comments).map Comment.text).flatMap fun text =>
        table.segments text.toList := by
  rw [placedSegments, List.map_flatMap, List.flatMap_map]
  congr 1
  funext comment
  rw [Comment.placedSegments, Comment.placeFrom, List.map_map]
  exact List.zipIdx_map_fst 1 _

/-- The segments of comments stand at ascending places where no two keys are equal. -/
theorem pairwise_placedSegments
    (table : KeywordTable)
    {comments : List Comment}
    (distinct : (comments.map Comment.key).Nodup) :
    (table.placedSegments comments).Pairwise fun placed later =>
      OrderKey.Before placed.location.key later.location.key := by
  have locationKey : ∀ comment : Comment, ∀ placed ∈ comment.placedSegments table,
      ∃ rank, placed.location.key = comment.key ++ [rank] := by
    intro comment placed isPlaced
    obtain ⟨⟨segment, rank⟩, _, rfl⟩ := List.mem_map.mp isPlaced
    exact ⟨rank, rfl⟩
  rw [placedSegments, List.pairwise_flatMap]
  refine ⟨?_, (OrderKey.pairwise_before_sortBy distinct).imp ?_⟩
  · intro comment _
    have ranks :
        ((table.segments comment.text.toList).zipIdx 1).Pairwise fun left right =>
          left.2 < right.2 := by
      rw [← List.pairwise_map, List.zipIdx_map_snd]
      exact List.pairwise_lt_range'
    rw [Comment.placedSegments, Comment.placeFrom, List.pairwise_map]
    exact ranks.imp fun smaller => OrderKey.before_concat comment.key smaller
  · intro comment later before placed isPlaced placed' isPlaced'
    obtain ⟨rank, key⟩ := locationKey comment placed isPlaced
    obtain ⟨rank', key'⟩ := locationKey later placed' isPlaced'
    rw [key, key']
    exact before.append rfl [rank] [rank']

end KeywordTable

namespace Run

/-- The runs have the same marks but for their places, and so the same model and skeleton. -/
structure SameButPlaces
    (first second : Run) :
    Prop where
  marks :
    first.transcript.marks.map Mark.unplaced = second.transcript.marks.map Mark.unplaced
  model : first.model = second.model
  skeleton : ∀ delimiter, first.skeleton delimiter = second.skeleton delimiter

/-- Where the texts in the order of the keys are the same, runs are alike. -/
theorem alike_of_sameTexts
    (settings : Settings)
    {first second : List Comment}
    (sameTexts :
      (Comment.sort first).map Comment.text = (Comment.sort second).map Comment.text) :
    Fault.Alike SameButPlaces (ofComments settings first) (ofComments settings second) := by
  have sameSegments :
      (settings.keywordTable.placedSegments first).map PlacedSegment.segment =
        (settings.keywordTable.placedSegments second).map PlacedSegment.segment := by
    rw [KeywordTable.map_segment_placedSegments, KeywordTable.map_segment_placedSegments,
      sameTexts]
  have sameStart : Extraction.SameButPlaces .start .start := ⟨rfl, rfl⟩
  have alike :
      Fault.Alike Extraction.SameButPlaces
        (Extraction.start.read settings.keywordTable
          (settings.keywordTable.placedSegments first))
        (Extraction.start.read settings.keywordTable
          (settings.keywordTable.placedSegments second)) :=
    sameStart.read sameSegments
  unfold ofComments
  rw [Transcript.ofComments_eq_read, Transcript.ofComments_eq_read]
  generalize Extraction.start.read settings.keywordTable
    (settings.keywordTable.placedSegments first) = outcome at *
  generalize Extraction.start.read settings.keywordTable
    (settings.keywordTable.placedSegments second) = outcome' at *
  cases alike with
  | error sameFault => exact .error sameFault
  | @ok extraction extraction' same =>
      have sameModels := Fault.alike_of_mapError_eq
        (Model.ofTranscript_eq_of_unplaced same.marks settings.workflow)
      simp only [Except.map]
      generalize Model.ofTranscript settings.workflow extraction.transcript = modeled at *
      generalize Model.ofTranscript settings.workflow extraction'.transcript = modeled' at *
      cases sameModels with
      | error sameFault => exact .error sameFault
      | ok sameModel =>
          exact .ok {
            marks := same.marks
            model := sameModel
            skeleton := Transcript.skeleton_eq_of_unplaced same.marks }

/-- A run over rearranged comments is the same where no two keys are equal. -/
theorem ofComments_of_perm
    (settings : Settings)
    {first second : List Comment}
    (distinct : (first.map Comment.key).Nodup)
    (rearranged : first.Perm second) :
    ofComments settings second =
      (ofComments settings first).map fun run => { run with comments := second } := by
  have sameOrder : Comment.sort first = Comment.sort second :=
    OrderKey.sortBy_eq_of_perm rearranged distinct
  simp only [ofComments, Transcript.ofComments, sameOrder]
  cases Except.map Extraction.transcript
      (Extraction.start.addComments settings.keywordTable (Comment.sort second)) with
  | error fault => rfl
  | ok transcript =>
      simp only
      cases Model.ofTranscript settings.workflow transcript <;> rfl

/-- A run has the transcript of its comments and the model of that transcript. -/
theorem transcript_of_ofComments
    {settings : Settings}
    {comments : List Comment}
    {run : Run}
    (ran : ofComments settings comments = .ok run) :
    Transcript.ofComments settings.keywordTable comments = .ok run.transcript ∧
      Model.ofTranscript settings.workflow run.transcript = .ok run.model ∧
      run.comments = comments := by
  unfold ofComments at ran
  split at ran
  · cases ran
  · rename_i transcript extracted
    split at ran
    · cases ran
    · rename_i model accepted
      cases ran
      exact ⟨extracted, accepted, rfl⟩

/--
A run depends on the texts of its comments in the order of the comments' keys: where these are the
same, two runs are alike but for places.  Where no two keys are equal, even the order in which the
comments are given does not matter, and marks stand at ascending places.
-/
theorem ofComments_sorted
    (settings : Settings)
    (first second : List Comment) :
    ((Comment.sort first).map Comment.text = (Comment.sort second).map Comment.text →
        Fault.Alike SameButPlaces (ofComments settings first) (ofComments settings second)) ∧
      ((first.map Comment.key).Nodup →
        (first.Perm second →
            ofComments settings second =
              (ofComments settings first).map fun run => { run with comments := second }) ∧
          ∀ run, ofComments settings first = .ok run →
            run.transcript.marks.Pairwise fun mark later =>
              OrderKey.Before mark.location.key later.location.key) := by
  refine ⟨alike_of_sameTexts settings, fun distinct => ⟨ofComments_of_perm settings distinct, ?_⟩⟩
  intro run ran
  obtain ⟨extracted, _, _⟩ := transcript_of_ofComments ran
  rcases Transcript.readsAs_or_firstRejected settings.keywordTable first with
    ⟨transcript, isRead, readsAs⟩ | ⟨fault, failed, _⟩
  · rw [isRead] at extracted
    cases extracted
    have ascending := settings.keywordTable.pairwise_placedSegments distinct
    rw [← List.pairwise_map (f := PlacedSegment.location)
      (R := fun place later => OrderKey.Before place.key later.key),
      ← readsAs.map_location, List.pairwise_map] at ascending
    exact ascending
  · rw [failed] at extracted
    cases extracted

set_option maxRecDepth 4000 in
/-- Four comments in another order, with one run. -/
theorem ofComments_sorted_rearranged :
    ∃ first second run,
      first ≠ second ∧
        (first.map Comment.key).Nodup ∧
        first.Perm second ∧
        (Comment.sort first).map Comment.text = (Comment.sort second).map Comment.text ∧
        ofComments .standard first = .ok run ∧
        run.transcript.marks.map (·.name) = ["a", "x", "y", "a"] ∧
        Fault.Alike SameButPlaces (ofComments .standard first) (ofComments .standard second) ∧
        ofComments .standard second = .ok { run with comments := second } ∧
        run.transcript.marks.Pairwise fun mark later =>
          OrderKey.Before mark.location.key later.location.key := by
  let first : List Comment :=
    [.onLine 3 "@end a", .onLine 1 "@begin a", .onLine 2 "@in x @as y"]
  let second : List Comment :=
    [.onLine 1 "@begin a", .onLine 3 "@end a", .onLine 2 "@in x @as y"]
  have distinct : (first.map Comment.key).Nodup := by decide
  have rearranged : first.Perm second := .swap _ _ _
  have sameTexts :
      (Comment.sort first).map Comment.text = (Comment.sort second).map Comment.text :=
    congrArg (List.map Comment.text) (OrderKey.sortBy_eq_of_perm rearranged distinct)
  have names :
      (ofComments .standard first).map (fun run => run.transcript.marks.map (·.name)) =
        .ok ["a", "x", "y", "a"] := by
    cbv
  obtain ⟨alike, exact⟩ := ofComments_sorted .standard first second
  obtain ⟨sameRun, ascending⟩ := exact distinct
  cases ran : ofComments .standard first with
  | error fault =>
      rw [ran] at names
      cases names
  | ok run =>
      rw [ran] at names
      refine ⟨first, second, run, by decide, distinct, rearranged, sameTexts, ran,
        Except.ok.inj names, alike sameTexts, ?_, ascending run ran⟩
      rw [sameRun rearranged, ran]
      rfl

end Run

end Flowmark
