import Mathlib
import Flowmark.Proofs.Model.Assembly
import Flowmark.Proofs.Model.Relocation
import Flowmark.Proofs.Outline.Admission
import Flowmark.Proofs.Run.Order

namespace Flowmark

/-!
# Runs one after another

Where all comments of one list come before all comments of another, and each list alone has a run,
both together have one too: the marks and the records of the first run, followed by those of the
second with raised numbers.  The only trace of the first list is the numbers, since the marks of the
second begin with a primary and its scopes are not inside any of the first.
-/

/-! ## Marks -/

namespace Extraction

/-- A state has the marks of an earlier one, and after them the marks read alone. -/
structure Continues
    (earlier alone joined : Extraction) :
    Prop where
  marks :
    joined.transcript.marks =
      earlier.transcript.marks ++ alone.transcript.marks.map (Mark.shift earlier.transcript.size)
  latest :
    joined.latestPrimary =
      (alone.latestPrimary.map (earlier.transcript.size + ·)).or earlier.latestPrimary

/-- The next number is raised by the number of earlier marks. -/
theorem Continues.nextId
    {earlier alone joined : Extraction}
    (continues : Continues earlier alone joined) :
    joined.transcript.nextId = earlier.transcript.size + alone.transcript.nextId := by
  simp [Transcript.nextId, Transcript.size, continues.marks, Nat.add_assoc]

/-- A mark that is added alone is added after the earlier ones too. -/
theorem Continues.addClause
    {earlier alone joined next : Extraction}
    (continues : Continues earlier alone joined)
    {location : Location}
    {clause : Clause}
    (added : alone.addClause location clause = .ok next) :
    ∃ joinedNext,
      joined.addClause location clause = .ok joinedNext ∧ Continues earlier next joinedNext := by
  unfold Extraction.addClause at added ⊢
  cases kind : clause.tag.isQualifier with
  | true =>
      cases latest : alone.latestPrimary with
      | none => simp [kind, latest] at added
      | some primary =>
          have joinedLatest :
              joined.latestPrimary = some (earlier.transcript.size + primary) := by
            simp [continues.latest, latest]
          simp only [kind, latest, if_true, Except.ok.injEq] at added
          subst added
          simp only [joinedLatest, if_true]
          refine ⟨_, rfl, ?_, ?_⟩
          · simp only [Transcript.push, continues.marks, continues.nextId, List.map_append,
              List.append_assoc]
            rfl
          · simp
  | false =>
      simp only [kind, Bool.false_eq_true, if_false, Except.ok.injEq] at added ⊢
      subst added
      refine ⟨_, rfl, ?_, ?_⟩
      · simp only [Transcript.push, continues.marks, continues.nextId, List.map_append,
          List.append_assoc]
        rfl
      · simp [continues.nextId]

/-- A segment that is added alone is added after the earlier marks too. -/
theorem Continues.addSegment
    {table : KeywordTable}
    {earlier alone joined next : Extraction}
    (continues : Continues earlier alone joined)
    {location : Location}
    {segment : Segment}
    (added : alone.addSegment table location segment = .ok next) :
    ∃ joinedNext,
      joined.addSegment table location segment = .ok joinedNext ∧
        Continues earlier next joinedNext := by
  obtain ⟨clause, readsAs, addedClause⟩ := shape_of_addSegment added
  rw [addSegment_of_read readsAs]
  exact continues.addClause addedClause

/-- Segments that are read alone are read after earlier ones too. -/
theorem Continues.read
    {table : KeywordTable}
    {earlier alone joined final : Extraction}
    (continues : Continues earlier alone joined)
    {segments : List PlacedSegment}
    (isRead : alone.read table segments = .ok final) :
    ∃ joinedFinal,
      joined.read table segments = .ok joinedFinal ∧ Continues earlier final joinedFinal := by
  induction segments generalizing alone joined with
  | nil =>
      cases isRead
      exact ⟨joined, rfl, continues⟩
  | cons placed segments inductionHypothesis =>
      unfold Extraction.read at isRead ⊢
      cases added : alone.addSegment table placed.location placed.segment with
      | error fault => simp [added] at isRead
      | ok next =>
          obtain ⟨joinedNext, joinedAdded, nextContinues⟩ := continues.addSegment added
          simp only [added] at isRead
          simp only [joinedAdded]
          exact inductionHypothesis nextContinues isRead

end Extraction

/-- Comments of which some come before all others are sorted apart from them. -/
theorem KeywordTable.placedSegments_append
    (table : KeywordTable)
    {first second : List Comment}
    (apart : ∀ comment ∈ first, ∀ later ∈ second, OrderKey.Before comment.key later.key) :
    table.placedSegments (first ++ second) =
      table.placedSegments first ++ table.placedSegments second := by
  have sorted :
      Comment.sort (first ++ second) = Comment.sort first ++ Comment.sort second :=
    OrderKey.sortBy_append fun comment isFirst later isSecond =>
      (apart comment isFirst later isSecond).1
  simp only [placedSegments, sorted, List.flatMap_append]

namespace Transcript

/-- The transcript of comments is read from their segments. -/
theorem exists_read_of_ofComments
    {table : KeywordTable}
    {comments : List Comment}
    {transcript : Transcript}
    (extracted : ofComments table comments = .ok transcript) :
    ∃ final,
      Extraction.start.read table (table.placedSegments comments) = .ok final ∧
        final.transcript = transcript := by
  rw [ofComments_eq_read] at extracted
  cases isRead : Extraction.start.read table (table.placedSegments comments) with
  | error fault => simp [isRead, Except.map] at extracted
  | ok final =>
      simp only [isRead, Except.map, Except.ok.injEq] at extracted
      exact ⟨final, rfl, extracted⟩

/-- The marks of two lists of comments follow one another. -/
theorem exists_ofComments_append
    {table : KeywordTable}
    {first second : List Comment}
    (apart : ∀ comment ∈ first, ∀ later ∈ second, OrderKey.Before comment.key later.key)
    {earlier later : Transcript}
    (firstExtracted : ofComments table first = .ok earlier)
    (secondExtracted : ofComments table second = .ok later) :
    ∃ transcript,
      ofComments table (first ++ second) = .ok transcript ∧
        transcript.marks = earlier.marks ++ later.marks.map (Mark.shift earlier.size) := by
  obtain ⟨firstFinal, firstRead, rfl⟩ := exists_read_of_ofComments firstExtracted
  obtain ⟨secondFinal, secondRead, rfl⟩ := exists_read_of_ofComments secondExtracted
  have nothingYet : Extraction.Continues firstFinal .start firstFinal :=
    ⟨by simp [Extraction.start, empty], by simp [Extraction.start]⟩
  obtain ⟨final, finalRead, continues⟩ := nothingYet.read secondRead
  refine ⟨final.transcript, ?_, continues.marks⟩
  simp only [ofComments_eq_read, table.placedSegments_append apart, Extraction.read_append,
    firstRead, finalRead, Except.map]

/-- So do their statements. -/
theorem statements_of_append
    {earlier later transcript : Transcript}
    (earlierAttached : Mark.AttachedFrom none earlier.marks)
    (laterAttached : Mark.AttachedFrom none later.marks)
    (attached : Mark.AttachedFrom none transcript.marks)
    (shape : transcript.marks = earlier.marks ++ later.marks.map (Mark.shift earlier.size)) :
    transcript.statements =
      earlier.statements ++ later.statements.map (Statement.shift earlier.size) := by
  have laterFormed :
      ∀ statement ∈ later.statements.map (Statement.shift earlier.size), statement.IsFormed := by
    intro statement isShifted
    obtain ⟨original, isOriginal, rfl⟩ := List.mem_map.mp isShifted
    exact (formed_statements laterAttached original isOriginal).shift earlier.size
  have formed := List.forall_mem_append.mpr ⟨formed_statements earlierAttached, laterFormed⟩
  rw [statements_eq_group attached, shape, ← Statement.group_flatMap_marks formed,
    List.flatMap_append, Statement.flatMap_marks_shift, flatMap_marks_statements earlierAttached,
    flatMap_marks_statements laterAttached]

end Transcript

/-! ## Models -/

namespace Model

/-- A model with raised numbers. -/
def shift
    (offset : Shift)
    (model : Model) :
    Model where
  toRecords := model.toRecords.shift offset
  topLevel := model.topLevel.map (offset.sizes.programs + ·)
  root := model.root.map (offset.sizes.programs + ·)

/-- A model followed by another one; the root of the first comes before that of the second. -/
protected def append
    (earlier later : Model) :
    Model where
  toRecords := earlier.toRecords ++ later.toRecords
  topLevel := earlier.topLevel ++ later.topLevel
  root := earlier.root.or later.root

instance : Append Model :=
  ⟨Model.append⟩

/-- A model is determined by its records, its top level and its root. -/
theorem ext_of_records
    {model model' : Model}
    (records : model.toRecords = model'.toRecords)
    (topLevel : model.topLevel = model'.topLevel)
    (root : model.root = model'.root) :
    model = model' := by
  rcases model with ⟨records, topLevel, root⟩
  rcases model' with ⟨records', topLevel', root'⟩
  cases records
  cases topLevel
  cases root
  rfl

/-- The root of two models is that of the first, or else that of the second. -/
theorem chooseRoot_append
    {first : Records}
    {firstTop : List ProgramId}
    (inFirst : ∀ id ∈ firstTop, id < first.programs.length)
    {offset : Shift}
    (afterFirst : offset.sizes = first.sizes)
    (second : Records)
    (secondTop : List ProgramId)
    (workflow : Option String) :
    chooseRoot (first ++ second.shift offset)
        (firstTop ++ secondTop.map (offset.sizes.programs + ·)) workflow =
      (chooseRoot first firstTop workflow).or
        ((chooseRoot second secondTop workflow).map (offset.sizes.programs + ·)) := by
  cases workflow with
  | none => cases firstTop <;> simp [chooseRoot]
  | some workflow =>
      have firstPrograms : ∀ id ∈ firstTop,
          (first ++ second.shift offset).programs[id]? = first.programs[id]? := by
        intro id isTop
        exact List.getElem?_append_left (inFirst id isTop)
      have secondPrograms : ∀ id,
          (first ++ second.shift offset).programs[offset.sizes.programs + id]? =
            second.programs[id]?.map (Program.shift offset) := by
        intro id
        rw [Records.programs_append, afterFirst, Records.sizes, List.getElem?_append_right
          (Nat.le_add_right _ _), Nat.add_sub_cancel_left]
        exact List.getElem?_map
      simp only [chooseRoot, List.find?_append, List.find?_map, Function.comp_def, secondPrograms,
        Option.any_map]
      congr 1
      apply List.find?_congr
      intro id isTop
      rw [firstPrograms id isTop]

/-- The numbers at the top level are those of programs. -/
theorem FormedBy.lt_of_mem_topLevel
    {model : Model}
    {nodes : List Node}
    (formed : model.FormedBy nodes)
    {id : ProgramId}
    (isTop : id ∈ model.topLevel) :
    id < model.programs.length := by
  obtain ⟨members, forest, topLevel⟩ := formed
  rw [topLevel] at isTop
  obtain ⟨member, isMember, rfl⟩ := List.mem_map.mp isTop
  simpa [Sizes.zero] using (forest.program_range isMember).2

/-- Blocks that follow others are assembled as they are alone, with raised numbers. -/
theorem ofBlocks_append
    (workflow : Option String)
    (count : Nat)
    {first second : List Block}
    (inFirst : ∀ id ∈ (ofBlocks workflow first).topLevel,
      id < (ofBlocks workflow first).programs.length) :
    ofBlocks workflow (first ++ second.map (Block.map (Statement.shift count))) =
      ofBlocks workflow first ++
        (ofBlocks workflow second).shift ⟨count, (ofBlocks workflow first).sizes⟩ := by
  let offset : Shift := ⟨count, (ofBlocks workflow first).sizes⟩
  have assembled :
      Block.assembleAll .zero (first ++ second.map (Block.map (Statement.shift count))) =
        Block.assembleAll .zero first ++
          (Block.assembleAll .zero second).map (Assembled.shift offset) := by
    rw [Block.assembleAll_append, ← Block.assembleAll_shift offset, Sizes.zero_add,
      Sizes.add_zero]
    rfl
  have records :
      (ofBlocks workflow (first ++ second.map (Block.map (Statement.shift count)))).toRecords =
        (ofBlocks workflow first).toRecords ++
          (ofBlocks workflow second).toRecords.shift offset := by
    simp only [ofBlocks, assembled, List.map_append, Records.join_append, Records.shift_join,
      List.map_map, Function.comp_def, Assembled.shift]
  have topLevel :
      (ofBlocks workflow (first ++ second.map (Block.map (Statement.shift count)))).topLevel =
        (ofBlocks workflow first).topLevel ++
          (ofBlocks workflow second).topLevel.map (offset.sizes.programs + ·) := by
    simp only [ofBlocks, assembled, List.map_append, List.map_map, Function.comp_def,
      Assembled.shift, Member.shift]
  apply ext_of_records records topLevel
  have afterFirst : offset.sizes = (ofBlocks workflow first).sizes := rfl
  have chosen :=
    chooseRoot_append inFirst afterFirst (ofBlocks workflow second).toRecords
      (ofBlocks workflow second).topLevel workflow
  rw [← records, ← topLevel] at chosen
  exact chosen

/-- Statements that follow others are modelled as they are alone, with raised numbers. -/
theorem ofTranscript_append
    {workflow : Option String}
    {earlier later transcript : Transcript}
    {earlierModel laterModel : Model}
    (earlierAccepted : ofTranscript workflow earlier = .ok earlierModel)
    (laterAccepted : ofTranscript workflow later = .ok laterModel)
    (statements :
      transcript.statements =
        earlier.statements ++ later.statements.map (Statement.shift earlier.size)) :
    ofTranscript workflow transcript =
      .ok (earlierModel ++ laterModel.shift ⟨earlier.size, earlierModel.sizes⟩) := by
  obtain ⟨nodes, formed⟩ := formedBy_of_ofTranscript earlierAccepted
  obtain ⟨first, firstRead, rfl⟩ := blocks_of_ofTranscript earlierAccepted
  obtain ⟨second, secondRead, rfl⟩ := blocks_of_ofTranscript laterAccepted
  have shiftedPrimaries :
      ∀ statement ∈ later.statements.map (Statement.shift earlier.size),
        statement.tag.role ≠ .qualifies := by
    intro statement isShifted
    obtain ⟨original, isOriginal, rfl⟩ := List.mem_map.mp isShifted
    have primary : original.tag.role ≠ .qualifies :=
      Transcript.role_of_mem_statements isOriginal
    exact primary
  have isRead :
      Block.ofStatements transcript.statements =
        .ok (first ++ second.map (Block.map (Statement.shift earlier.size))) := by
    rw [statements]
    exact Block.ofStatements_append (fun _ => Transcript.role_of_mem_statements) shiftedPrimaries
      firstRead (Block.ofStatements_shift earlier.size secondRead)
  rw [ofTranscript, isRead, ← ofBlocks_append workflow earlier.size
    fun _ isTop => formed.lt_of_mem_topLevel isTop]
  rfl

end Model

namespace Run

/--
Where all comments of one list come before all comments of another, and both lists have runs, the
two lists together have a run: its marks and its model are those of the first run followed by those
of the second, in which every number is raised by what the first run has.
-/
theorem ofComments_append
    {settings : Settings}
    {first second : List Comment}
    (apart : ∀ comment ∈ first, ∀ later ∈ second, OrderKey.Before comment.key later.key)
    {earlier later : Run}
    (firstRan : ofComments settings first = .ok earlier)
    (secondRan : ofComments settings second = .ok later) :
    ∃ run,
      ofComments settings (first ++ second) = .ok run ∧
        run.comments = earlier.comments ++ later.comments ∧
        run.transcript.marks =
          earlier.transcript.marks ++
            later.transcript.marks.map (Mark.shift earlier.transcript.size) ∧
        run.model =
          earlier.model ++ later.model.shift ⟨earlier.transcript.size, earlier.model.sizes⟩ := by
  obtain ⟨firstExtracted, firstAccepted, firstComments⟩ := transcript_of_ofComments firstRan
  obtain ⟨secondExtracted, secondAccepted, secondComments⟩ := transcript_of_ofComments secondRan
  obtain ⟨transcript, extracted, marks⟩ :=
    Transcript.exists_ofComments_append apart firstExtracted secondExtracted
  have statements :=
    Transcript.statements_of_append (Extraction.attached_of_ofComments firstExtracted)
      (Extraction.attached_of_ofComments secondExtracted)
      (Extraction.attached_of_ofComments extracted) marks
  have accepted := Model.ofTranscript_append firstAccepted secondAccepted statements
  refine ⟨⟨first ++ second, transcript, _⟩, ?_, ?_, marks, rfl⟩
  · simp only [ofComments, extracted, accepted]
  · rw [firstComments, secondComments]

set_option maxRecDepth 4000 in
/-- Two comments with a program each, joined to one run with both programs. -/
theorem ofComments_append_joined :
    ∃ first second earlier later run,
      (∀ comment ∈ first, ∀ other ∈ second, OrderKey.Before comment.key other.key) ∧
        ofComments .standard first = .ok earlier ∧
        ofComments .standard second = .ok later ∧
        earlier.model.programs.map (fun program => (program.id, program.name)) = [(0, "a")] ∧
        later.model.programs.map (fun program => (program.id, program.name)) = [(0, "b")] ∧
        ofComments .standard (first ++ second) = .ok run ∧
        run.model =
          earlier.model ++ later.model.shift ⟨earlier.transcript.size, earlier.model.sizes⟩ := by
  let first : List Comment := [.onLine 2 "@as y @end a", .onLine 1 "@begin a @out x"]
  let second : List Comment := [.onLine 3 "@begin b @in y @end b"]
  let programs : Run → List (ProgramId × String) :=
    fun run => run.model.programs.map fun program => (program.id, program.name)
  have apart : ∀ comment ∈ first, ∀ other ∈ second, OrderKey.Before comment.key other.key := by
    unfold OrderKey.Before
    decide
  have firstPrograms : (ofComments .standard first).map programs = .ok [(0, "a")] := by cbv
  have secondPrograms : (ofComments .standard second).map programs = .ok [(0, "b")] := by cbv
  cases firstRan : ofComments .standard first with
  | error fault =>
      rw [firstRan] at firstPrograms
      cases firstPrograms
  | ok earlier =>
      cases secondRan : ofComments .standard second with
      | error fault =>
          rw [secondRan] at secondPrograms
          cases secondPrograms
      | ok later =>
          rw [firstRan] at firstPrograms
          rw [secondRan] at secondPrograms
          obtain ⟨run, ran, _, _, model⟩ := ofComments_append apart firstRan secondRan
          exact ⟨first, second, earlier, later, run, apart, firstRan, secondRan,
            Except.ok.inj firstPrograms, Except.ok.inj secondPrograms, ran, model⟩

end Run

end Flowmark
