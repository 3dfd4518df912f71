import Flowmark.Model
import Flowmark.Proofs.Outline.Acceptance

namespace Flowmark

open Statement

/-!
# Acceptance of transcripts

A transcript has a model exactly when its statements fit and close every scope; otherwise its fault
is the first one of its statements.
-/

namespace Transcript

/-- The statements of a transcript are primaries. -/
theorem role_of_mem_statements
    {transcript : Transcript}
    {statement : Statement}
    (member : statement ∈ transcript.statements) :
    statement.tag.role ≠ .qualifies := by
  obtain ⟨primary, inPrimaries, rfl⟩ := List.mem_map.mp member
  have isPrimary := (List.mem_filter.mp inPrimaries).2
  simpa [Mark.isPrimary, Tag.isPrimary, Tag.isQualifier, Statement.tag] using isPrimary

/-- The blocks that a transcript is read as have suitable tags and consist of its statements. -/
theorem blocks_of_ofStatements
    {transcript : Transcript}
    {blocks : List Block}
    (isRead : Block.ofStatements transcript.statements = .ok blocks) :
    (∀ block ∈ blocks, block.HasRoles) ∧
      blocks.flatMap Block.statements = transcript.statements := by
  have primaries : ∀ statement ∈ transcript.statements, statement.tag.role ≠ .qualifies :=
    fun _ => role_of_mem_statements
  rcases Block.ofStatements_outcome primaries with
    ⟨others, isRead', roles, consistOf, _⟩ | ⟨fault, failed, _⟩
  · rw [isRead] at isRead'
    cases isRead'
    exact ⟨roles, consistOf⟩
  · rw [isRead] at failed
    cases failed

end Transcript

namespace Model

/-- The model of an accepted transcript is that of the blocks it is read as. -/
theorem blocks_of_ofTranscript
    {workflow : Option String}
    {transcript : Transcript}
    {model : Model}
    (accepted : ofTranscript workflow transcript = .ok model) :
    ∃ blocks,
      Block.ofStatements transcript.statements = .ok blocks ∧ ofBlocks workflow blocks = model := by
  unfold ofTranscript at accepted
  cases isRead : Block.ofStatements transcript.statements with
  | error fault => simp [isRead, Except.map] at accepted
  | ok blocks =>
      simp only [isRead, Except.map, Except.ok.injEq] at accepted
      exact ⟨blocks, rfl, accepted⟩

/-- The statements of an accepted transcript fit. -/
theorem fit_of_ofTranscript
    {workflow : Option String}
    {transcript : Transcript}
    {model : Model}
    (accepted : ofTranscript workflow transcript = .ok model) :
    Fit transcript.statements := by
  have primaries : ∀ statement ∈ transcript.statements, statement.tag.role ≠ .qualifies :=
    fun _ => Transcript.role_of_mem_statements
  obtain ⟨blocks, isRead, _⟩ := blocks_of_ofTranscript accepted
  rcases Block.ofStatements_outcome primaries with
    ⟨_, _, _, _, fit, _⟩ | ⟨fault, failed, _⟩
  · exact fit
  · rw [isRead] at failed
    cases failed

/-- A transcript of whose model something is known has a model. -/
theorem exists_of_toOption_map
    {α : Type}
    {observe : Model → α}
    {workflow : Option String}
    {transcript : Transcript}
    {value : α}
    (observed : (ofTranscript workflow transcript).toOption.map observe = some value) :
    ∃ model, ofTranscript workflow transcript = .ok model ∧ observe model = value := by
  cases accepted : ofTranscript workflow transcript with
  | error fault =>
      rw [accepted] at observed
      cases observed
  | ok model =>
      rw [accepted] at observed
      exact ⟨model, rfl, Option.some.inj observed⟩

/--
A transcript has a model exactly when no statement offends after those before it and no scope is
open at the end.  Otherwise its fault is that of the first offending statement, or that of the
innermost open scope where none offends.
-/
theorem ofTranscript_outcome
    (workflow : Option String)
    (transcript : Transcript) :
    ((∃ model, ofTranscript workflow transcript = .ok model) ↔
        Fit transcript.statements ∧
          ∀ opener, ¬ InnermostOpen transcript.statements opener) ∧
      ∀ fault,
        ofTranscript workflow transcript = .error fault ↔
          FirstFault transcript.statements fault := by
  have primaries : ∀ statement ∈ transcript.statements, statement.tag.role ≠ .qualifies :=
    fun _ => Transcript.role_of_mem_statements
  rcases Block.ofStatements_outcome primaries with
    ⟨blocks, read, _, _, fit, allClosed⟩ | ⟨fault, failed, first⟩
  · have accepted : ofTranscript workflow transcript = .ok (ofBlocks workflow blocks) := by
      rw [ofTranscript, read]
      rfl
    rw [accepted]
    refine ⟨⟨fun _ => ⟨fit, allClosed⟩, fun _ => ⟨_, rfl⟩⟩, ?_⟩
    intro other
    exact ⟨nofun, fun otherFirst => absurd otherFirst (not_firstFault fit allClosed other)⟩
  · have rejected : ofTranscript workflow transcript = .error fault := by
      rw [ofTranscript, failed]
      rfl
    rw [rejected]
    refine ⟨⟨nofun, ?_⟩, ?_⟩
    · rintro ⟨fit, allClosed⟩
      exact absurd first (not_firstFault fit allClosed fault)
    · intro other
      constructor
      · rintro ⟨⟩
        exact first
      · intro otherFirst
        rw [first.unique otherFirst]

end Model

end Flowmark
