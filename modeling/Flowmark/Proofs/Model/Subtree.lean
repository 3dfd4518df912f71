import Flowmark.Proofs.Model.Part

namespace Flowmark

/-!
# Subtrees

The subtree of a program has the records whose lineage leads through it.  For a scope these are the
records that lie together as its part of the model.
-/

/-- Where exactly the middle of a list passes a test, filtering leaves the middle. -/
theorem filter_eq_middle
    {α : Type}
    {test : α → Bool}
    {left middle right : List α}
    (leftFails : ∀ item ∈ left, test item = false)
    (middlePasses : ∀ item ∈ middle, test item = true)
    (rightFails : ∀ item ∈ right, test item = false) :
    (left ++ middle ++ right).filter test = middle := by
  have noneLeft : left.filter test = [] := by simpa [List.filter_eq_nil_iff] using leftFails
  have noneRight : right.filter test = [] := by simpa [List.filter_eq_nil_iff] using rightFails
  rw [List.filter_append, List.filter_append, noneLeft, noneRight,
    List.filter_eq_self.mpr middlePasses, List.nil_append, List.append_nil]

/-- Both parts of numbers that count up count up. -/
theorem Consecutive.of_append
    {first : Nat}
    {before after : List Nat}
    (consecutive : Consecutive first (before ++ after)) :
    Consecutive first before ∧ Consecutive (first + before.length) after := by
  unfold Consecutive at *
  rw [List.length_append, ← List.range'_append_1] at consecutive
  exact List.append_inj consecutive List.length_range'.symm

namespace Model

/-- The records of a program and of all programs in it. -/
def subtree
    (model : Model)
    (id : ProgramId) :
    Records where
  programs := model.programs.filter fun program => id ∈ model.lineage program.id
  ports := model.ports.filter fun port => id ∈ model.lineage port.owner
  channels := model.channels.filter fun channel => id ∈ model.lineage channel.scope
  artifacts := model.artifacts.filter fun artifact => id ∈ model.lineage artifact.scope

variable {model : Model} {nodes : List Node}

/-- The lineage of a program is its number and then that of its parent. -/
theorem lineage_of_parent
    {id parent : ProgramId}
    {program : Program}
    (found : model.program? id = some program)
    (isParent : program.parent = some parent)
    (before : parent < id) :
    model.lineage id = id :: model.lineage parent := by
  rw [lineage, found]
  simp [isParent, before]

/-- Without a parent a program is alone in its lineage. -/
theorem lineage_of_no_parent
    {id : ProgramId}
    (noParent : (model.program? id).bind Program.parent = none) :
    model.lineage id = [id] := by
  rw [lineage, noParent]

/-- The program that is found by a number has this number. -/
theorem FormedBy.id_of_program?
    (formed : model.FormedBy nodes)
    {id : ProgramId}
    {program : Program}
    (found : model.program? id = some program) :
    program.id = id := by
  have inRange : id < model.programs.length := (List.getElem?_eq_some_iff.mp found).1
  have number : (model.programs.map Program.id)[id]? = some program.id := by
    rw [List.getElem?_map, show model.programs[id]? = some program from found, Option.map_some]
  rw [formed.numbered.programs, List.length_map, List.getElem?_range' inRange, Sizes.zero,
    Nat.zero_add, Nat.one_mul] at number
  exact (Option.some.inj number).symm

/-- A parent has a smaller number than its children. -/
theorem FormedBy.parent_lt
    (formed : model.FormedBy nodes)
    {program : Program}
    (isProgram : program ∈ model.programs)
    {parent : ProgramId}
    (isParent : program.parent = some parent) :
    parent < program.id := by
  obtain ⟨node, isNode, rfl⟩ := formed.node_of_mem isProgram
  rcases formed.parent_of_node isNode with noParent | ⟨outer, _, hasParent, _, before⟩
  · rw [isParent] at noParent
    cases noParent
  · rw [isParent] at hasParent
    cases hasParent
    exact before

/-- The parent of a program found by a number has a smaller number. -/
theorem FormedBy.parent_lt_of_program?
    (formed : model.FormedBy nodes)
    {id parent : ProgramId}
    {program : Program}
    (found : model.program? id = some program)
    (isParent : program.parent = some parent) :
    parent < id := by
  rw [← formed.id_of_program? found]
  exact formed.parent_lt (List.mem_of_getElem? found) isParent

/-- The lineage of another program leads through a scope if that of its parent does. -/
theorem FormedBy.mem_lineage_of_ne
    (formed : model.FormedBy nodes)
    {scope id : ProgramId}
    (notScope : id ≠ scope) :
    scope ∈ model.lineage id ↔
      ∃ program parent,
        model.program? id = some program ∧
          program.parent = some parent ∧
          scope ∈ model.lineage parent := by
  constructor
  · intro isMember
    cases isParent : (model.program? id).bind Program.parent with
    | none =>
        rw [lineage_of_no_parent isParent, List.mem_singleton] at isMember
        exact absurd isMember.symm notScope
    | some parent =>
        obtain ⟨program, found, isParent⟩ := Option.bind_eq_some_iff.mp isParent
        rw [lineage_of_parent found isParent (formed.parent_lt_of_program? found isParent)]
          at isMember
        refine ⟨program, parent, found, isParent, ?_⟩
        exact (List.mem_cons.mp isMember).resolve_left notScope.symm
  · rintro ⟨program, parent, found, isParent, inParent⟩
    rw [lineage_of_parent found isParent (formed.parent_lt_of_program? found isParent)]
    exact List.mem_cons_of_mem _ inParent

end Model

namespace Block

variable (block : Block) (position : Position)

/-- The records in the body of a block name only programs of the block. -/
theorem closed_level :
    (block.level position).records.Closed none position.before.programs
      (position.before + (block.assembleAt position).records.sizes).programs := by
  have closed := Outline.closed_assemble block.body position.before.programs
    position.before.addProgram []
  rw [show block.body.assemble position.before.programs position.before.addProgram [] =
    block.level position from rfl, programs_level] at closed
  exact closed.inBody (block.programs_lt position) none

/-- So do all records of the block but its program. -/
theorem closed_interior :
    ((block.level position).records ++ block.findings position).Closed none
      position.before.programs
      (position.before + (block.assembleAt position).records.sizes).programs :=
  (block.closed_level position).append
    ((block.closed_findings position _ _).inBody (block.programs_lt position) none)

/-- The parent of a program in the body of a block is a program of the block. -/
theorem exists_parent_of_level
    {program : Program}
    (isProgram : program ∈ (block.level position).records.programs) :
    ∃ parent : Nat,
      program.parent = some parent ∧
        position.before.programs ≤ parent ∧
        parent < (position.before + (block.assembleAt position).records.sizes).programs := by
  cases isParent : program.parent with
  | none => exact absurd isParent (Outline.parent_ne_none block.body _ _ _ program isProgram)
  | some parent =>
      rcases block.closed_level position parent (.parent isProgram isParent) with isOuter | inside
      · cases isOuter
      · exact ⟨parent, rfl, inside⟩

end Block

namespace Model

variable {model : Model} {nodes : List Node} {block : Block} {position : Position}

section Numbers

variable
  {left right : List Program}
  (programs : model.programs = left ++ (block.assembleAt position).records.programs ++ right)
  (leftEnd : left.length = position.before.programs)
  {id : Nat}

include programs leftEnd

/-- The numbers behind that of a scope, up to its end, are those of the programs in its body. -/
theorem exists_program_in_body
    (behindScope : position.before.programs < id)
    (inside : id < (position.before + (block.assembleAt position).records.sizes).programs) :
    ∃ program ∈ (block.level position).records.programs, model.program? id = some program := by
  obtain ⟨place, rfl⟩ : ∃ place, id = left.length + (place + 1) :=
    ⟨id - position.before.programs - 1, by omega⟩
  rw [Sizes.programs_add, ← leftEnd, Nat.add_lt_add_iff_left] at inside
  have inBody : place < (block.level position).records.programs.length :=
    Nat.lt_of_succ_lt_succ inside
  refine ⟨_, List.getElem_mem inBody, ?_⟩
  rw [program?, programs, List.append_assoc, List.getElem?_append_right (Nat.le_add_right _ _),
    Nat.add_sub_cancel_left]
  exact (List.getElem?_append_left inside).trans (List.getElem?_eq_getElem inBody)

/-- The numbers behind the end of a scope are those of the programs after it. -/
theorem mem_right_of_program?
    (behind : (position.before + (block.assembleAt position).records.sizes).programs ≤ id)
    {program : Program}
    (found : model.program? id = some program) :
    program ∈ right := by
  have isBehind : (left ++ (block.assembleAt position).records.programs).length ≤ id := by
    rw [List.length_append, leftEnd]
    exact behind
  rw [program?, programs, List.getElem?_append_right isBehind] at found
  exact List.mem_of_getElem? found

end Numbers

/-- The lineage of a number leads through a scope if it is a number of the scope. -/
theorem FormedBy.mem_lineage_iff
    (formed : model.FormedBy nodes)
    (hasPart :
      model.toRecords.HasPart .zero (block.assembleAt position).records position.before)
    (id : Nat) :
    position.before.programs ∈ model.lineage id ↔
      position.before.programs ≤ id ∧
        id < (position.before + (block.assembleAt position).records.sizes).programs := by
  obtain ⟨left, right, shape, sizes, _, rightAvoids⟩ := hasPart
  have leftEnd : left.programs.length = position.before.programs := by
    rw [← sizes]
    exact (Nat.zero_add _).symm
  have programs :
      model.programs =
        left.programs ++ (block.assembleAt position).records.programs ++ right.programs :=
    congrArg Records.programs shape
  induction id using Nat.strongRecOn with
  | ind id inductionHypothesis =>
      by_cases low : id < position.before.programs
      · have notMember : position.before.programs ∉ model.lineage id := fun isMember =>
          Nat.not_lt_of_le (le_of_mem_lineage isMember) low
        simp [notMember, Nat.not_le_of_lt low]
      by_cases isScope : id = position.before.programs
      · rw [isScope]
        exact ⟨fun _ => ⟨Nat.le_refl _, block.programs_lt position⟩,
          fun _ => mem_lineage_self model _⟩
      rw [formed.mem_lineage_of_ne isScope]
      constructor
      · -- A program behind the scope has no parent in it.
        rintro ⟨program, parent, found, isParent, inParent⟩
        have before := formed.parent_lt_of_program? found isParent
        obtain ⟨notBefore, notBehind⟩ := (inductionHypothesis parent before).mp inParent
        refine ⟨Nat.le_of_not_lt low, Nat.lt_of_not_le fun behind => ?_⟩
        have isRight := mem_right_of_program? programs leftEnd behind found
        rcases rightAvoids parent (.parent isRight isParent) with isBefore | isBehind
        · exact Nat.not_lt_of_le notBefore isBefore
        · exact Nat.not_lt_of_le isBehind notBehind
      · -- The parent of a program in the body is in the scope as well.
        rintro ⟨notBefore, inside⟩
        have behindScope : position.before.programs < id :=
          Nat.lt_of_le_of_ne notBefore (Ne.symm isScope)
        obtain ⟨program, isProgram, found⟩ :=
          exists_program_in_body programs leftEnd behindScope inside
        obtain ⟨parent, isParent, parentInside⟩ := block.exists_parent_of_level position isProgram
        have before := formed.parent_lt_of_program? found isParent
        exact ⟨program, parent, found, isParent,
          (inductionHypothesis parent before).mpr parentInside⟩

/-- The programs of a part have the numbers between those before and those after it. -/
theorem FormedBy.ids_of_parts
    (formed : model.FormedBy nodes)
    {left part right : Records}
    {first : Sizes}
    (shape : model.toRecords = left ++ part ++ right)
    (sizes : .zero + left.sizes = first) :
    (∀ program ∈ left.programs, program.id < first.programs) ∧
      (∀ program ∈ part.programs,
        first.programs ≤ program.id ∧ program.id < (first + part.sizes).programs) ∧
      ∀ program ∈ right.programs, (first + part.sizes).programs ≤ program.id := by
  have numbered := formed.numbered.programs
  rw [shape, Records.programs_append, Records.programs_append, List.map_append,
    List.map_append] at numbered
  obtain ⟨frontIds, rightIds⟩ := numbered.of_append
  obtain ⟨leftIds, partIds⟩ := frontIds.of_append
  have leftEnd :
      Sizes.zero.programs + (left.programs.map Program.id).length = first.programs := by
    rw [← sizes, List.length_map]
    rfl
  have partEnd :
      Sizes.zero.programs +
          (left.programs.map Program.id ++ part.programs.map Program.id).length =
        (first + part.sizes).programs := by
    rw [List.length_append, ← Nat.add_assoc, leftEnd, List.length_map]
    rfl
  rw [leftEnd] at partIds
  rw [partEnd] at rightIds
  refine ⟨?_, ?_, ?_⟩
  · intro program isProgram
    have inIds := (leftIds.mem_iff _).mp (List.mem_map_of_mem isProgram)
    rw [leftEnd] at inIds
    exact inIds.2
  · intro program isProgram
    have inIds := (partIds.mem_iff _).mp (List.mem_map_of_mem isProgram)
    rw [List.length_map] at inIds
    exact inIds
  · intro program isProgram
    exact ((rightIds.mem_iff _).mp (List.mem_map_of_mem isProgram)).1

/-- The subtree of a scope is its part of the model. -/
theorem FormedBy.subtree_eq
    (formed : model.FormedBy nodes)
    (hasPart :
      model.toRecords.HasPart .zero (block.assembleAt position).records position.before) :
    model.subtree position.before.programs = (block.assembleAt position).records := by
  have memLineage := formed.mem_lineage_iff hasPart
  obtain ⟨left, right, shape, sizes, leftAvoids, rightAvoids⟩ := hasPart
  obtain ⟨leftIds, partIds, rightIds⟩ := formed.ids_of_parts shape sizes
  have outside : ∀ {id : Nat},
      id < position.before.programs ∨
          (position.before + (block.assembleAt position).records.sizes).programs ≤ id →
        decide (position.before.programs ∈ model.lineage id) = false := by
    intro id isOutside
    rw [decide_eq_false_iff_not, memLineage id]
    rintro ⟨notBefore, notBehind⟩
    rcases isOutside with isBefore | isBehind
    · exact Nat.not_lt_of_le notBefore isBefore
    · exact Nat.not_lt_of_le isBehind notBehind
  -- Every other record is told by the program that it names.
  have inside : ∀ id : Nat,
      ((block.level position).records ++ block.findings position).RefersTo id →
        decide (position.before.programs ∈ model.lineage id) = true := by
    intro id refers
    rw [decide_eq_true_iff, memLineage id]
    exact (block.closed_interior position id refers).resolve_left nofun
  ext1
  · refine (congrArg (List.filter _) (congrArg Records.programs shape)).trans
      (filter_eq_middle ?_ ?_ ?_)
    · exact fun program isProgram => outside (Or.inl (leftIds program isProgram))
    · exact fun program isProgram =>
        decide_eq_true ((memLineage _).mpr (partIds program isProgram))
    · exact fun program isProgram => outside (Or.inr (rightIds program isProgram))
  · refine (congrArg (List.filter _) (congrArg Records.ports shape)).trans
      (filter_eq_middle ?_ ?_ ?_)
    · exact fun port isPort => outside (leftAvoids _ (.owner isPort rfl))
    · exact fun port isPort => inside _ (.owner (List.mem_append_left _ isPort) rfl)
    · exact fun port isPort => outside (rightAvoids _ (.owner isPort rfl))
  · refine (congrArg (List.filter _) (congrArg Records.channels shape)).trans
      (filter_eq_middle ?_ ?_ ?_)
    · exact fun channel isChannel => outside (leftAvoids _ (.channelScope isChannel rfl))
    · exact fun channel isChannel => inside _ (.channelScope isChannel rfl)
    · exact fun channel isChannel => outside (rightAvoids _ (.channelScope isChannel rfl))
  · refine (congrArg (List.filter _) (congrArg Records.artifacts shape)).trans
      (filter_eq_middle ?_ ?_ ?_)
    · exact fun artifact isArtifact => outside (leftAvoids _ (.artifactScope isArtifact rfl))
    · exact fun artifact isArtifact => inside _ (.artifactScope isArtifact rfl)
    · exact fun artifact isArtifact => outside (rightAvoids _ (.artifactScope isArtifact rfl))

end Model

end Flowmark
