import Flowmark.Proofs.Model.Part

namespace Flowmark

/-!
# Numbers of records

The records of a scope are numbered without gaps from the sizes before it, each sort on its own.
-/

/-- Records of all four sorts are numbered from the sizes before them. -/
structure Records.AllNumbered
    (before : Sizes)
    (records : Records) :
    Prop extends records.Numbered before where
  artifacts : Consecutive before.artifacts (records.artifacts.map Artifact.id)

namespace Records

/-- Two groups of records are numbered where the second goes on behind the first. -/
theorem AllNumbered.append
    {before : Sizes}
    {left right : Records}
    (leftNumbered : left.AllNumbered before)
    (rightNumbered : right.AllNumbered (before + left.sizes)) :
    (left ++ right).AllNumbered before where
  toNumbered := leftNumbered.toNumbered.append rightNumbered.toNumbered
  artifacts := by
    rw [artifacts_append, List.map_append]
    exact leftNumbered.artifacts.append (by simpa [sizes] using rightNumbered.artifacts)

/-- A port with the next number is numbered. -/
theorem allNumbered_ofPort
    {before : Sizes}
    {port : Port}
    (number : port.id = before.ports) :
    (ofPort port).AllNumbered before where
  programs := .nil _
  ports := by
    rw [← number]
    exact (Consecutive.nil _).cons
  channels := .nil _
  artifacts := .nil _

/-- A program with the next number is numbered. -/
theorem allNumbered_ofProgram
    {before : Sizes}
    {program : Program}
    (number : program.id = before.programs) :
    (ofProgram program).AllNumbered before where
  programs := by
    rw [← number]
    exact (Consecutive.nil _).cons
  ports := .nil _
  channels := .nil _
  artifacts := .nil _

end Records

/-- The records of a block are numbered where those of its body are. -/
theorem Block.allNumbered_of_level
    (block : Block)
    (position : Position)
    (numbered : (block.level position).records.AllNumbered position.before.addProgram) :
    (block.assembleAt position).records.AllNumbered position.before := by
  rw [records_assembleAt]
  refine .append (.append (Records.allNumbered_ofProgram rfl) numbered) ?_
  exact
    { programs := .nil _
      ports := .nil _
      channels := .of_zipIdx _ _ _ _ fun _ => rfl
      artifacts := .of_zipIdx _ _ _ _ fun _ => rfl }

/-- The records of a body are numbered from the sizes before it. -/
theorem Outline.allNumbered_assemble
    (outline : Outline)
    (scope : ProgramId)
    (before : Sizes)
    (taken : List Port) :
    (outline.assemble scope before taken).records.AllNumbered before := by
  induction outline generalizing scope before taken with
  | nil => exact ⟨⟨.nil _, .nil _, .nil _⟩, .nil _⟩
  | port declaration direction rest inductionHypothesis =>
      rw [assemble]
      split
      · exact .append (Records.allNumbered_ofPort rfl) (inductionHypothesis _ _ _)
      · exact .append (Records.allNumbered_ofPort rfl) (inductionHypothesis _ _ _)
  | call site rest inductionHypothesis =>
      exact .append (Records.allNumbered_ofProgram rfl) (inductionHypothesis _ _ _)
  | scope opener body closer rest bodyHypothesis inductionHypothesis =>
      have inner :=
        Block.allNumbered_of_level ⟨opener, body, closer⟩ ⟨some scope, before⟩
          (bodyHypothesis _ _ _)
      exact inner.append (inductionHypothesis _ _ _)

/-- The records of a block are numbered from the sizes before it. -/
theorem Block.allNumbered_assembleAt
    (block : Block)
    (position : Position) :
    (block.assembleAt position).records.AllNumbered position.before :=
  block.allNumbered_of_level position (Outline.allNumbered_assemble block.body _ _ _)

end Flowmark
