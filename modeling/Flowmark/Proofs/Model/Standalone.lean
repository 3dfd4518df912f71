import Mathlib
import Flowmark.Proofs.Markup.Slice
import Flowmark.Proofs.Model.Ancestry
import Flowmark.Proofs.Model.Numbering

namespace Flowmark

/-!
# Scopes on their own

The marks from the opening of a scope to its closing have a model of their own.  It is the subtree
of the scope in the whole model, with numbers that begin at the start and without the parent.  What
comes after the closing has no effect on the subtree.
-/

namespace Records

/-- Records in which a program has no parent. -/
def detach
    (records : Records)
    (id : ProgramId) :
    Records :=
  { records with
    programs := records.programs.map fun program =>
      if program.id = id then { program with parent := none } else program }

end Records

/-- The records of a block without parent are those at its position with the parent taken away. -/
theorem Block.detach_assembleAt
    (block : Block)
    (position : Position) :
    (block.assembleAt position).records.detach position.before.programs =
      (block.assembleAt ⟨none, position.before⟩).records := by
  have later : ∀ program ∈ (block.level position).records.programs,
      program.id ≠ position.before.programs := by
    intro program isProgram
    have numbered :=
      (Outline.allNumbered_assemble block.body position.before.programs position.before.addProgram
        []).programs
    have inIds := (numbered.mem_iff _).mp (List.mem_map_of_mem isProgram)
    exact Nat.ne_of_gt inIds.1
  have sameLevel :
      (block.level position).records.programs.map (fun program =>
          if program.id = position.before.programs then { program with parent := none }
          else program) =
        (block.level position).records.programs := by
    refine (List.map_congr_left ?_).trans (List.map_id _)
    intro program isProgram
    rw [if_neg (later program isProgram)]
    rfl
  ext1
  · refine congrArg₂ List.cons ?_ sameLevel
    exact if_pos rfl
  · rfl
  · rfl
  · rfl

namespace Model

/-! ## Scopes among other statements -/

/-- A scope among the statements has a part in the model that the statements before it determine. -/
theorem exists_part
    {workflow : Option String}
    {transcript : Transcript}
    {model : Model}
    (accepted : ofTranscript workflow transcript = .ok model)
    {outside behind : List Statement}
    {block : Block}
    (admitted : block.IsAdmitted)
    (shape : transcript.statements = outside ++ (block.statements ++ behind)) :
    ∃ reader,
      OutlineReader.start.run outside = .ok reader ∧
        model.toRecords.HasPart .zero (block.assembleAt reader.position).records
          reader.position.before ∧
        model.subtree reader.position.before.programs =
          (block.assembleAt reader.position).records := by
  obtain ⟨nodes, formed⟩ := formedBy_of_ofTranscript accepted
  obtain ⟨blocks, isRead, rfl⟩ := blocks_of_ofTranscript accepted
  rw [shape] at isRead
  obtain ⟨reader, ran, contained⟩ := Block.contained_of_ofStatements admitted isRead
  exact ⟨reader, ran, contained.hasPart, formed.subtree_eq contained.hasPart⟩

/-- The statements of a program that is no call stand among those of the transcript. -/
theorem exists_statements
    {workflow : Option String}
    {transcript : Transcript}
    {model : Model}
    (accepted : ofTranscript workflow transcript = .ok model)
    {program : Program}
    (isProgram : program ∈ model.programs)
    (isScope : program.kind ≠ .invocation) :
    ∃ (block : Block) (outside behind : List Statement),
      block.IsAdmitted ∧
        block.opener.id = program.openedBy ∧
        transcript.statements = outside ++ (block.statements ++ behind) := by
  obtain ⟨blocks, isRead, rfl⟩ := blocks_of_ofTranscript accepted
  have primaries : ∀ statement ∈ transcript.statements, statement.tag.role ≠ .qualifies :=
    fun _ => Transcript.role_of_mem_statements
  obtain ⟨allAdmitted, consistOf⟩ := (Block.ofStatements_eq_ok_iff primaries blocks).mp isRead
  obtain ⟨position, block, contained, rfl⟩ :=
    Block.exists_contained blocks .zero isProgram isScope
  obtain ⟨admitted, outside, behind, shape⟩ := contained.statements allAdmitted
  exact ⟨block, outside, behind, admitted, rfl, by rw [← consistOf, shape]⟩

/-- The marks of a scope alone have the model of the scope without parent. -/
theorem ofTranscript_slice
    {transcript : Transcript}
    (attached : Mark.AttachedFrom none transcript.marks)
    {outside behind : List Statement}
    {block : Block}
    (admitted : block.IsAdmitted)
    (shape : transcript.statements = outside ++ (block.statements ++ behind))
    (workflow : Option String) :
    ∃ alone,
      ofTranscript workflow (transcript.slice block.opener.id block.closer.id) = .ok alone ∧
        alone.topLevel = [0] ∧
        ∀ before,
          alone.toRecords.shift ⟨block.opener.id - 1, before⟩ =
            (block.assembleAt ⟨none, before⟩).records := by
  let lowered := transcript.slice block.opener.id block.closer.id
  let trimmed : Block := { block with closer := ⟨block.closer.primary, []⟩ }
  have trimmedAdmitted : trimmed.IsAdmitted := ⟨admitted.1, admitted.2, admitted.3, admitted.4⟩
  have shape' :
      transcript.statements =
        outside ++ block.opener :: (block.body.statements ++ block.closer :: behind) := by
    simp [shape, Block.statements]
  have raised :
      lowered.statements.map (Statement.shift (block.opener.id - 1)) = trimmed.statements :=
    Transcript.statements_slice attached shape'
  have trimmedRead : Block.ofStatements trimmed.statements = .ok [trimmed] := by
    have ran := OutlineReader.run_of_isAdmitted trimmedAdmitted .start
    rw [Block.ofStatements, ran]
    rfl
  rw [← raised] at trimmedRead
  obtain ⟨own, ownRead, ownShape⟩ := Block.exists_of_ofStatements_shift trimmedRead
  obtain ⟨inner, rest, rfl, innerShape, restShape⟩ := List.map_eq_cons_iff.mp ownShape
  cases List.map_eq_nil_iff.mp restShape
  refine ⟨ofBlocks workflow [inner], ?_, rfl, ?_⟩
  · rw [ofTranscript, ownRead]
    rfl
  · intro before
    have alone : (ofBlocks workflow [inner]).toRecords = (inner.assemble .zero).records := by
      ext1 <;> exact List.append_nil _
    have shifted := Block.assemble_shift ⟨block.opener.id - 1, before⟩ .zero inner
    rw [innerShape, Sizes.add_zero] at shifted
    rw [alone]
    exact (congrArg Assembled.records shifted).symm

/-- The subtree of a scope does not depend on what follows the primary that closes it. -/
theorem subtree_eq_of_take
    {first second : Transcript}
    (firstAttached : Mark.AttachedFrom none first.marks)
    (secondAttached : Mark.AttachedFrom none second.marks)
    {outside behind : List Statement}
    {block : Block}
    (admitted : block.IsAdmitted)
    (shape : first.statements = outside ++ (block.statements ++ behind))
    (sameMarks : second.marks.take block.closer.id = first.marks.take block.closer.id)
    {workflow : Option String}
    {model : Model}
    (accepted : ofTranscript workflow second = .ok model)
    {reader : OutlineReader}
    (ran : OutlineReader.start.run outside = .ok reader) :
    model.subtree reader.position.before.programs = (block.assembleAt reader.position).records := by
  let earlier : List Statement := outside ++ block.opener :: block.body.statements
  have shape' : first.statements = earlier ++ block.closer :: behind := by
    simp [earlier, shape, Block.statements]
  have formed := Transcript.formed_statements firstAttached
  rw [shape'] at formed
  obtain ⟨earlierFormed, restFormed⟩ := List.forall_mem_append.mp formed
  have closerFormed := restFormed block.closer List.mem_cons_self
  have taken := Transcript.take_of_statements_eq firstAttached shape'
  obtain ⟨qualifiers, after, secondShape⟩ :=
    Transcript.statements_eq_of_take secondAttached earlierFormed closerFormed.primary
      (sameMarks.trans taken)
  let ended : Block := { block with closer := ⟨block.closer.primary, qualifiers⟩ }
  have endedAdmitted : ended.IsAdmitted := ⟨admitted.1, admitted.2, admitted.3, admitted.4⟩
  have endedShape : second.statements = outside ++ (ended.statements ++ after) := by
    simp [secondShape, earlier, ended, Block.statements]
  obtain ⟨reader', ran', _, subtree⟩ := exists_part accepted endedAdmitted endedShape
  rw [ran] at ran'
  cases ran'
  exact subtree

/--
In a model of comments, the marks from the opening of a scope to its closing have a model of their
own, whatever root is chosen.  With the numbers raised by what comes before the scope, it is the
subtree of the scope without the parent.  The records of the subtree lie together and are numbered
without gaps, and no mark after the closing has an effect on them.
-/
theorem standalone_of_ofTranscript
    {table : KeywordTable}
    {comments : List Comment}
    {transcript : Transcript}
    (extracted : Transcript.ofComments table comments = .ok transcript)
    {workflow : Option String}
    {model : Model}
    (accepted : ofTranscript workflow transcript = .ok model)
    {program : Program}
    (isProgram : program ∈ model.programs)
    (isScope : program.kind ≠ .invocation) :
    ∃ (last : MarkId) (before after : Records),
      program.closedBy = some last ∧
        model.toRecords = before ++ model.subtree program.id ++ after ∧
        (model.subtree program.id).AllNumbered before.sizes ∧
        (∀ choice, ∃ alone,
          ofTranscript choice (transcript.slice program.openedBy last) = .ok alone ∧
            alone.topLevel = [0] ∧
            alone.toRecords.shift ⟨program.openedBy - 1, before.sizes⟩ =
              (model.subtree program.id).detach program.id) ∧
        ∀ otherTable otherComments other choice otherModel,
          Transcript.ofComments otherTable otherComments = .ok other →
            ofTranscript choice other = .ok otherModel →
            other.marks.take last = transcript.marks.take last →
            otherModel.subtree program.id = model.subtree program.id := by
  have attached := Extraction.attached_of_ofComments extracted
  obtain ⟨block, outside, behind, admitted, opening, shape⟩ :=
    exists_statements accepted isProgram isScope
  obtain ⟨reader, ran, hasPart, subtree⟩ := exists_part accepted admitted shape
  obtain ⟨left, right, records, sizes, _, _⟩ := hasPart
  rw [Sizes.zero_add] at sizes
  have inPart :
      block.program reader.position ∈ (block.assembleAt reader.position).records.programs :=
    List.head_mem _
  have inModel : block.program reader.position ∈ model.programs := by
    rw [records]
    exact List.mem_append_left _ (List.mem_append_right _ inPart)
  -- No two programs are opened by one mark.
  obtain rfl : program = block.program reader.position :=
    openedBy_ext accepted isProgram inModel opening.symm
  have isSubtree :
      model.subtree (block.program reader.position).id =
        (block.assembleAt reader.position).records :=
    subtree
  refine ⟨block.closer.id, left, right, rfl, ?_, ?_, ?_, ?_⟩
  · rw [isSubtree, records]
  · rw [isSubtree, sizes]
    exact block.allNumbered_assembleAt reader.position
  · intro choice
    obtain ⟨alone, aloneAccepted, topLevel, aloneRecords⟩ :=
      ofTranscript_slice attached admitted shape choice
    refine ⟨alone, aloneAccepted, topLevel, ?_⟩
    rw [isSubtree, sizes]
    exact (aloneRecords _).trans (block.detach_assembleAt reader.position).symm
  · intro otherTable otherComments other choice otherModel otherExtracted otherAccepted sameMarks
    rw [isSubtree]
    exact subtree_eq_of_take attached (Extraction.attached_of_ofComments otherExtracted) admitted
      shape sameMarks otherAccepted ran

set_option maxRecDepth 4000 in
/-- The program inside another one has a model of its own. -/
theorem standalone_of_ofTranscript_inner :
    ∃ table comments transcript model program,
      Transcript.ofComments table comments = .ok transcript ∧
        ofTranscript none transcript = .ok model ∧
        program ∈ model.programs ∧
        program.kind ≠ .invocation ∧
        program.id = 1 ∧
        program.parent = some 0 ∧
        ∃ last before after alone,
          program.closedBy = some last ∧
            model.toRecords = before ++ model.subtree program.id ++ after ∧
            ofTranscript none (transcript.slice program.openedBy last) = .ok alone ∧
            alone.toRecords.shift ⟨program.openedBy - 1, before.sizes⟩ =
              (model.subtree program.id).detach program.id := by
  let comments : List Comment :=
    [.onLine 1 "@begin a @in x", .onLine 2 "@begin b @in x @end b @end a"]
  have links :
      ((Transcript.ofComments .standard comments).bind fun transcript =>
        (ofTranscript none transcript).map fun model =>
          model.programs.map fun program => (program.id, program.parent, program.kind)) =
        .ok [(0, none, .block), (1, some 0, .block)] := by
    cbv
  cases extracted : Transcript.ofComments .standard comments with
  | error fault =>
      rw [extracted] at links
      cases links
  | ok transcript =>
      cases accepted : ofTranscript none transcript with
      | error fault =>
          simp only [extracted, Except.bind, accepted] at links
          cases links
      | ok model =>
          simp only [extracted, Except.bind, accepted, Except.map, Except.ok.injEq] at links
          obtain ⟨outer, rest, programs, _, restLinks⟩ := List.map_eq_cons_iff.mp links
          obtain ⟨program, _, rfl, link, _⟩ := List.map_eq_cons_iff.mp restLinks
          simp only [Prod.mk.injEq] at link
          obtain ⟨number, parent, kind⟩ := link
          have isProgram : program ∈ model.programs := by simp [programs]
          have isScope : program.kind ≠ .invocation := by simp [kind]
          obtain ⟨last, before, after, closing, records, _, standsAlone, _⟩ :=
            standalone_of_ofTranscript extracted accepted isProgram isScope
          obtain ⟨alone, aloneAccepted, _, aloneRecords⟩ := standsAlone none
          exact ⟨.standard, comments, transcript, model, program, extracted, accepted, isProgram,
            isScope, number, parent, last, before, after, alone, closing, records, aloneAccepted,
            aloneRecords⟩

end Model

end Flowmark
