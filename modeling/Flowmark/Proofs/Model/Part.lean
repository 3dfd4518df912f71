import Flowmark.Proofs.Model.Lineage
import Flowmark.Proofs.Model.Position
import Flowmark.Proofs.Model.Relocation

namespace Flowmark

/-!
# The part of a model that belongs to a scope

The records of a scope and of all that stands in it lie together among the records of the model.  No
other record refers to a program of them, so they are the subtree of the scope.
-/

/-! ## References -/

namespace Records

/-- A record names a program as its parent, its owner or its scope. -/
inductive RefersTo
    (records : Records)
    (id : ProgramId) :
    Prop where
  | parent
      {program : Program}
      (isProgram : program ∈ records.programs)
      (isParent : program.parent = some id)
  | owner
      {port : Port}
      (isPort : port ∈ records.ports)
      (isOwner : port.owner = id)
  | channelScope
      {channel : Channel}
      (isChannel : channel ∈ records.channels)
      (isScope : channel.scope = id)
  | artifactScope
      {artifact : Artifact}
      (isArtifact : artifact ∈ records.artifacts)
      (isScope : artifact.scope = id)

theorem not_refersTo_empty
    (id : ProgramId) :
    ¬ empty.RefersTo id := by
  intro refers
  cases refers with
  | parent isProgram => cases isProgram
  | owner isPort => cases isPort
  | channelScope isChannel => cases isChannel
  | artifactScope isArtifact => cases isArtifact

/-- What two groups of records name together is named by one of them. -/
theorem RefersTo.of_append
    {left right : Records}
    {id : ProgramId}
    (refers : (left ++ right).RefersTo id) :
    left.RefersTo id ∨ right.RefersTo id := by
  cases refers with
  | parent isProgram isParent =>
      rcases List.mem_append.mp isProgram with inLeft | inRight
      · exact Or.inl (.parent inLeft isParent)
      · exact Or.inr (.parent inRight isParent)
  | owner isPort isOwner =>
      rcases List.mem_append.mp isPort with inLeft | inRight
      · exact Or.inl (.owner inLeft isOwner)
      · exact Or.inr (.owner inRight isOwner)
  | channelScope isChannel isScope =>
      rcases List.mem_append.mp isChannel with inLeft | inRight
      · exact Or.inl (.channelScope inLeft isScope)
      · exact Or.inr (.channelScope inRight isScope)
  | artifactScope isArtifact isScope =>
      rcases List.mem_append.mp isArtifact with inLeft | inRight
      · exact Or.inl (.artifactScope inLeft isScope)
      · exact Or.inr (.artifactScope inRight isScope)

/-- No record names a program from one number up to another. -/
def Avoids
    (records : Records)
    (first last : Nat) :
    Prop :=
  ∀ id : Nat, records.RefersTo id → id < first ∨ last ≤ id

/-- Two groups of records that both avoid a range avoid it together. -/
theorem Avoids.append
    {left right : Records}
    {first last : Nat}
    (leftAvoids : left.Avoids first last)
    (rightAvoids : right.Avoids first last) :
    (left ++ right).Avoids first last := by
  intro id refers
  rcases refers.of_append with inLeft | inRight
  · exact leftAvoids id inLeft
  · exact rightAvoids id inRight

/-- The channels and artifacts of one scope. -/
def ofFindings
    (channels : List Channel)
    (artifacts : List Artifact) :
    Records :=
  { empty with
    channels := channels
    artifacts := artifacts }

end Records

/-! ## References of assembled records -/

namespace Block

variable (block : Block) (position : Position)

/-- What the body of a block contributes at a position. -/
def level :
    Level :=
  block.body.assemble position.before.programs position.before.addProgram []

/-- The flows in a block, and the interface that is left. -/
def wiring :
    Wiring :=
  .ofMembers (.ofPorts (block.level position).ports) (block.level position).members

/-- The channels and the artifacts of a block itself. -/
def findings :
    Records :=
  let inside := position.before + (block.level position).records.sizes
  .ofFindings ((block.wiring position).channels position.before.programs inside)
    ((block.wiring position).artifacts position.before.programs inside)

/-- The records of a block are its program, those of its body, and its findings. -/
theorem records_assembleAt :
    (block.assembleAt position).records =
      .ofProgram (block.program position) ++ (block.level position).records ++
        block.findings position := by
  ext1
  · exact (List.append_nil _).symm
  · exact (List.append_nil _).symm
  · rfl
  · rfl

end Block

namespace Outline

/-- A body with a call ahead has at least the program of that call. -/
theorem programs_pos_of_callAhead
    {outline : Outline}
    (callAhead : outline.callAhead = true)
    (scope : ProgramId)
    (before : Sizes)
    (taken : List Port) :
    0 < (outline.assemble scope before taken).records.sizes.programs := by
  induction outline generalizing before taken with
  | nil => cases callAhead
  | port declaration direction rest inductionHypothesis =>
      rw [assemble]
      split
      · exact inductionHypothesis callAhead _ _
      · exact inductionHypothesis callAhead _ _
  | call site rest _ => exact List.length_pos_of_ne_nil (List.cons_ne_nil _ _)
  | scope opener body closer rest _ _ => cases callAhead

end Outline

namespace Records

/-- Records name only an outer program and programs from one number up to another. -/
def Closed
    (records : Records)
    (outer : Option ProgramId)
    (first last : Nat) :
    Prop :=
  ∀ id : Nat, records.RefersTo id → outer = some id ∨ first ≤ id ∧ id < last

/-- Two groups of records with the same bounds have them together. -/
theorem Closed.append
    {left right : Records}
    {outer : Option ProgramId}
    {first last : Nat}
    (leftClosed : left.Closed outer first last)
    (rightClosed : right.Closed outer first last) :
    (left ++ right).Closed outer first last := by
  intro id refers
  rcases refers.of_append with inLeft | inRight
  · exact leftClosed id inLeft
  · exact rightClosed id inRight

/-- The bounds of what records name may be widened. -/
theorem Closed.mono
    {records : Records}
    {outer : Option ProgramId}
    {first first' last last' : Nat}
    (closed : records.Closed outer first last)
    (earlier : first' ≤ first)
    (later : last ≤ last') :
    records.Closed outer first' last' := by
  intro id refers
  refine (closed id refers).imp_right fun ⟨notBefore, notAfter⟩ => ?_
  exact ⟨Nat.le_trans earlier notBefore, Nat.lt_of_lt_of_le notAfter later⟩

/-- Records in the body of a program name no program outside it. -/
theorem Closed.inBody
    {records : Records}
    {program : ProgramId}
    {last : Nat}
    (closed : records.Closed (some program) (program + 1) last)
    (notEmpty : program < last)
    (outer : Option ProgramId) :
    records.Closed outer program last := by
  intro id refers
  rcases closed id refers with isProgram | ⟨notBefore, notAfter⟩
  · cases isProgram
    exact Or.inr ⟨Nat.le_refl _, notEmpty⟩
  · exact Or.inr ⟨Nat.le_of_succ_le notBefore, notAfter⟩

/-- A port names its owner only. -/
theorem closed_ofPort
    {port : Port}
    {outer : Option ProgramId}
    {first last : Nat}
    (owner : outer = some port.owner ∨ first ≤ port.owner ∧ port.owner < last) :
    (ofPort port).Closed outer first last := by
  intro id refers
  cases refers with
  | owner isPort isOwner =>
      rw [← isOwner, List.mem_singleton.mp isPort]
      exact owner
  | parent isProgram => cases isProgram
  | channelScope isChannel => cases isChannel
  | artifactScope isArtifact => cases isArtifact

/-- A program names its parent only. -/
theorem closed_ofProgram
    (program : Program)
    (first last : Nat) :
    (ofProgram program).Closed program.parent first last := by
  intro id refers
  cases refers with
  | parent isProgram isParent =>
      rw [← isParent, List.mem_singleton.mp isProgram]
      exact Or.inl rfl
  | owner isPort => cases isPort
  | channelScope isChannel => cases isChannel
  | artifactScope isArtifact => cases isArtifact

end Records

namespace Block

variable (block : Block) (position : Position)

/-- The channels and artifacts of a block name its program only. -/
theorem closed_findings
    (first last : Nat) :
    (block.findings position).Closed (some position.before.programs) first last := by
  intro id refers
  cases refers with
  | parent isProgram => cases isProgram
  | owner isPort => cases isPort
  | channelScope isChannel isScope =>
      obtain ⟨_, _, rfl⟩ := List.mem_map.mp isChannel
      exact Or.inl (congrArg some isScope)
  | artifactScope isArtifact isScope =>
      obtain ⟨_, _, rfl⟩ := List.mem_map.mp isArtifact
      exact Or.inl (congrArg some isScope)

/-- A block has at least the program of its own. -/
theorem programs_lt :
    position.before.programs <
      (position.before + (block.assembleAt position).records.sizes).programs :=
  Nat.lt_add_of_pos_right (Nat.succ_pos _)

/-- The number behind the programs of a block is that behind the programs of its body. -/
theorem programs_level :
    (position.before.addProgram + (block.level position).records.sizes).programs =
      (position.before + (block.assembleAt position).records.sizes).programs := by
  rw [records_assembleAt, Records.sizes_append, Records.sizes_append]
  simp only [Sizes.programs_add, Sizes.addProgram, Records.sizes, Records.ofProgram,
    Records.consProgram, Records.empty, findings, Records.ofFindings, List.length_cons,
    List.length_nil]
  omega

/-- The records of a block name only its parent and programs among themselves. -/
theorem closed_of_level
    (closed :
      (block.level position).records.Closed (some position.before.programs)
        position.before.addProgram.programs
        (position.before.addProgram + (block.level position).records.sizes).programs) :
    (block.assembleAt position).records.Closed position.parent position.before.programs
      (position.before + (block.assembleAt position).records.sizes).programs := by
  rw [programs_level] at closed
  have notEmpty := block.programs_lt position
  have parts :=
    ((Records.closed_ofProgram (block.program position) _ _).append
      (closed.inBody notEmpty _)).append
      ((block.closed_findings position _ _).inBody notEmpty _)
  rw [← records_assembleAt] at parts
  exact parts

end Block

namespace Outline

/-- The records of a body name only the scope around it and programs among themselves. -/
theorem closed_assemble
    (outline : Outline)
    (scope : ProgramId)
    (before : Sizes)
    (taken : List Port) :
    (outline.assemble scope before taken).records.Closed (some scope) before.programs
      (before + (outline.assemble scope before taken).records.sizes).programs := by
  induction outline generalizing scope before taken with
  | nil =>
      intro id refers
      exact absurd refers (Records.not_refersTo_empty id)
  | port declaration direction rest inductionHypothesis =>
      rw [assemble]
      split
      · rename_i isTaken
        have callAhead : rest.callAhead = true := (Bool.and_eq_true_iff.mp isTaken).2
        rw [Level.add_sizes_consPort]
        refine .append (Records.closed_ofPort (Or.inr ⟨Nat.le_refl _, ?_⟩))
          (inductionHypothesis _ _ _)
        exact Nat.lt_add_of_pos_right (programs_pos_of_callAhead callAhead _ _ _)
      · rw [Level.add_sizes_consPort]
        exact .append (Records.closed_ofPort (Or.inl rfl)) (inductionHypothesis _ _ _)
  | call site rest inductionHypothesis =>
      rw [assemble, Level.add_sizes_consMember]
      refine .append (Records.closed_ofProgram _ _ _) ?_
      exact (inductionHypothesis _ _ _).mono (Nat.le_succ _) (Nat.le_refl _)
  | scope opener body closer rest bodyHypothesis inductionHypothesis =>
      have innerClosed :=
        Block.closed_of_level ⟨opener, body, closer⟩ ⟨some scope, before⟩ (bodyHypothesis _ _ _)
      rw [assemble, Level.add_sizes_consMember]
      refine .append (innerClosed.mono (Nat.le_refl _) (Nat.le_add_right _ _)) ?_
      exact (inductionHypothesis _ _ _).mono (Nat.le_add_right _ _) (Nat.le_refl _)

/-- What holds of calls and of scopes under a parent holds of every program in a body. -/
theorem forall_programs
    {test : Program → Prop}
    (ofCall : ∀ scope before site taken, test (Node.ofCall scope before site taken).program)
    (ofScope : ∀ (block : Block) (position : Position),
      position.parent ≠ none → test (block.program position))
    (outline : Outline)
    (scope : ProgramId)
    (before : Sizes)
    (taken : List Port) :
    ∀ program ∈ (outline.assemble scope before taken).records.programs, test program := by
  induction outline generalizing scope before taken with
  | nil => simp [assemble, Level.empty, Records.empty]
  | port declaration direction rest inductionHypothesis =>
      rw [assemble]
      split
      · exact inductionHypothesis _ _ _
      · exact inductionHypothesis _ _ _
  | call site rest inductionHypothesis =>
      exact List.forall_mem_cons.mpr ⟨ofCall _ _ _ _, inductionHypothesis _ _ _⟩
  | scope opener body closer rest bodyHypothesis inductionHypothesis =>
      have ofInner := ofScope ⟨opener, body, closer⟩ ⟨some scope, before⟩ (Option.some_ne_none _)
      refine List.forall_mem_append.mpr ⟨?_, inductionHypothesis _ _ _⟩
      exact List.forall_mem_cons.mpr ⟨ofInner, bodyHypothesis _ _ _⟩

/-- Every program in a body has a parent. -/
theorem parent_ne_none
    (outline : Outline)
    (scope : ProgramId)
    (before : Sizes)
    (taken : List Port) :
    ∀ program ∈ (outline.assemble scope before taken).records.programs, program.parent ≠ none :=
  forall_programs (fun _ _ _ _ => Option.some_ne_none _) (fun _ _ hasParent => hasParent) _ _ _ _

end Outline

/-! ## Parts -/

namespace Records

/-- Some of the records lie together, behind given sizes, and no other record names one of their
programs. -/
def HasPart
    (records : Records)
    (before : Sizes)
    (part : Records)
    (first : Sizes) :
    Prop :=
  ∃ left right,
    records = left ++ part ++ right ∧
      before + left.sizes = first ∧
      left.Avoids first.programs (first + part.sizes).programs ∧
      right.Avoids first.programs (first + part.sizes).programs

theorem avoids_empty
    (first last : Nat) :
    empty.Avoids first last :=
  fun id refers => absurd refers (not_refersTo_empty id)

/-- Records are a part of themselves. -/
theorem HasPart.self
    (part : Records)
    (first : Sizes) :
    part.HasPart first part first :=
  ⟨empty, empty, by ext1 <;> simp [empty], rfl, avoids_empty _ _, avoids_empty _ _⟩

/-- A part stays one behind records that avoid it. -/
theorem HasPart.behind
    {records part : Records}
    {before first : Sizes}
    {left : Records}
    (hasPart : records.HasPart (before + left.sizes) part first)
    (avoids : left.Avoids first.programs (first + part.sizes).programs) :
    (left ++ records).HasPart before part first := by
  obtain ⟨inner, right, rfl, sizes, innerAvoids, rightAvoids⟩ := hasPart
  refine ⟨left ++ inner, right, ?_, ?_, avoids.append innerAvoids, rightAvoids⟩
  · simp only [append_assoc]
  · rw [sizes_append, ← Sizes.add_assoc, sizes]

/-- A part stays one in front of records that avoid it. -/
theorem HasPart.append
    {records part : Records}
    {before first : Sizes}
    (hasPart : records.HasPart before part first)
    {right : Records}
    (avoids : right.Avoids first.programs (first + part.sizes).programs) :
    (records ++ right).HasPart before part first := by
  obtain ⟨left, inner, rfl, sizes, leftAvoids, innerAvoids⟩ := hasPart
  exact ⟨left, inner ++ right, append_assoc _ _ _, sizes, leftAvoids, innerAvoids.append avoids⟩

/-- Records that name only programs on one side of a part avoid it. -/
theorem Closed.avoids
    {records : Records}
    {outer : Option ProgramId}
    {first last first' last' : Nat}
    (closed : records.Closed outer first last)
    (outerBefore : ∀ id, outer = some id → id < first')
    (apart : last ≤ first' ∨ last' ≤ first) :
    records.Avoids first' last' := by
  intro id refers
  rcases closed id refers with isOuter | ⟨notBefore, notAfter⟩
  · exact Or.inl (outerBefore id isOuter)
  · rcases apart with before | after
    · exact Or.inl (Nat.lt_of_lt_of_le notAfter before)
    · exact Or.inr (Nat.le_trans after notBefore)

/-- The programs of a part end no later than those of the whole. -/
theorem HasPart.programs_le
    {records part : Records}
    {before first : Sizes}
    (hasPart : records.HasPart before part first) :
    (first + part.sizes).programs ≤ (before + records.sizes).programs := by
  obtain ⟨left, right, rfl, rfl, _, _⟩ := hasPart
  simp only [sizes_append, Sizes.programs_add]
  omega

/-- Records that name an earlier program only avoid every later one. -/
theorem Closed.avoids_of_outer
    {records : Records}
    {outer : ProgramId}
    {first last : Nat}
    (closed : records.Closed (some outer) 0 0)
    (outerBefore : outer < first) :
    records.Avoids first last := by
  refine closed.avoids ?_ (Or.inl (Nat.zero_le _))
  rintro _ ⟨⟩
  exact outerBefore

end Records

/-- A part of the records of a body is a part of those of its block. -/
theorem Block.hasPart_of_level
    (block : Block)
    (position : Position)
    {part : Records}
    {first : Sizes}
    (hasPart : (block.level position).records.HasPart position.before.addProgram part first)
    (parentBefore : ∀ id, position.parent = some id → id < first.programs) :
    (block.assembleAt position).records.HasPart position.before part first := by
  have blockBefore : position.before.programs < first.programs := by
    obtain ⟨left, _, _, rfl, _⟩ := hasPart
    exact Nat.lt_of_lt_of_le (Nat.lt_succ_self _) (Nat.le_add_right _ _)
  have programAvoids :
      (Records.ofProgram (block.program position)).Avoids first.programs
        (first + part.sizes).programs :=
    (Records.closed_ofProgram _ 0 0).avoids parentBefore (Or.inl (Nat.zero_le _))
  have findingsAvoid :
      (block.findings position).Avoids first.programs (first + part.sizes).programs :=
    (block.closed_findings position 0 0).avoids_of_outer blockBefore
  rw [records_assembleAt]
  exact (hasPart.behind programAvoids).append findingsAvoid

namespace Outline

variable {position : Position} {block : Block}

/-- The records of a scope are a part of those of the body in which it stands. -/
theorem Contains.hasPart
    {outline : Outline}
    {scope : ProgramId}
    {before : Sizes}
    (contains : outline.Contains position block scope before)
    (scopeBefore : scope < before.programs)
    (taken : List Port) :
    (outline.assemble scope before taken).records.HasPart before
      (block.assembleAt position).records position.before := by
  induction contains generalizing taken with
  | @here scope before rest isPosition =>
      subst isPosition
      refine (Records.HasPart.self _ _).append ?_
      refine (closed_assemble rest scope _ []).avoids ?_ (Or.inr (Nat.le_refl _))
      rintro _ ⟨⟩
      exact scopeBefore
  | @port scope before declaration direction rest inRest inductionHypothesis =>
      rw [assemble]
      split
      · rename_i isTaken
        -- The port belongs to a call that comes before the scope.
        have callAhead : rest.callAhead = true := (Bool.and_eq_true_iff.mp isTaken).2
        rw [Level.records_consPort]
        exact .behind (inductionHypothesis scopeBefore _)
          ((Records.closed_ofPort (Or.inl rfl)).avoids_of_outer (inRest.programs_lt callAhead))
      · rw [Level.records_consPort]
        exact .behind (inductionHypothesis scopeBefore _)
          ((Records.closed_ofPort (Or.inl rfl)).avoids_of_outer
            (Nat.lt_of_lt_of_le scopeBefore inRest.programs_le))
  | @call scope before site rest inRest inductionHypothesis =>
      have scopeFirst : scope < position.before.programs :=
        Nat.lt_of_lt_of_le (Nat.lt_succ_of_lt scopeBefore) inRest.programs_le
      rw [assemble, Level.records_consMember]
      exact .behind (inductionHypothesis (Nat.lt_succ_of_lt scopeBefore) _)
        ((Records.closed_ofProgram _ 0 0).avoids_of_outer scopeFirst)
  | @inside scope before opener closer body rest inBody inductionHypothesis =>
      have scopeFirst : scope < position.before.programs :=
        Nat.lt_of_lt_of_le (Nat.lt_succ_of_lt scopeBefore) inBody.programs_le
      have outerPart :=
        Block.hasPart_of_level ⟨opener, body, closer⟩ ⟨some scope, before⟩
          (inductionHypothesis (Nat.lt_succ_self _) []) (by rintro _ ⟨⟩; exact scopeFirst)
      rw [assemble, Level.records_consMember]
      refine outerPart.append ?_
      refine (closed_assemble rest scope _ []).avoids ?_ (Or.inr outerPart.programs_le)
      rintro _ ⟨⟩
      exact scopeFirst
  | @after scope before opener closer body rest inRest inductionHypothesis =>
      have innerClosed :=
        Block.closed_of_level ⟨opener, body, closer⟩ ⟨some scope, before⟩
          (closed_assemble body _ _ _)
      rw [assemble, Level.records_consMember]
      refine .behind (inductionHypothesis ?_ _) (innerClosed.avoids ?_ (Or.inl ?_))
      · exact Nat.lt_of_lt_of_le scopeBefore (Nat.le_add_right _ _)
      · rintro _ ⟨⟩
        exact Nat.lt_of_lt_of_le scopeBefore
          (Nat.le_trans (Nat.le_add_right _ _) inRest.programs_le)
      · exact inRest.programs_le

end Outline

namespace Block

/-- The records of blocks are those of the first, then those of the others behind it. -/
theorem records_cons
    (before : Sizes)
    (block : Block)
    (blocks : List Block) :
    records before (block :: blocks) =
      (block.assembleAt ⟨none, before⟩).records ++
        records (before + (block.assembleAt ⟨none, before⟩).records.sizes) blocks :=
  rfl

/-- What holds of calls and of scopes holds of every program of the blocks. -/
theorem forall_programs_records
    {test : Program → Prop}
    (ofCall : ∀ scope before site taken, test (Node.ofCall scope before site taken).program)
    (ofScope : ∀ (block : Block) (position : Position), test (block.program position))
    (before : Sizes)
    (blocks : List Block) :
    ∀ program ∈ (records before blocks).programs, test program := by
  induction blocks generalizing before with
  | nil => simp [records, assembleAll, Records.join, Records.empty]
  | cons block blocks inductionHypothesis =>
      have ofBody := Outline.forall_programs ofCall (fun block position _ => ofScope block position)
        block.body before.programs before.addProgram []
      refine List.forall_mem_append.mpr ⟨?_, inductionHypothesis _⟩
      exact List.forall_mem_cons.mpr ⟨ofScope block ⟨none, before⟩, ofBody⟩

/-- The records of a block at a position name only its parent and programs among themselves. -/
theorem closed_assembleAt
    (block : Block)
    (position : Position) :
    (block.assembleAt position).records.Closed position.parent position.before.programs
      (position.before + (block.assembleAt position).records.sizes).programs :=
  block.closed_of_level position (Outline.closed_assemble block.body _ _ _)

/-- The records of blocks at the top level name only programs among themselves. -/
theorem closed_records
    (before : Sizes)
    (blocks : List Block) :
    (records before blocks).Closed none before.programs
      (before + (records before blocks).sizes).programs := by
  induction blocks generalizing before with
  | nil =>
      intro id refers
      exact absurd refers (Records.not_refersTo_empty id)
  | cons block blocks inductionHypothesis =>
      rw [records_cons, Records.sizes_append, ← Sizes.add_assoc]
      refine .append ?_ ?_
      · exact (block.closed_assembleAt ⟨none, before⟩).mono (Nat.le_refl _) (Nat.le_add_right _ _)
      · exact (inductionHypothesis _).mono (Nat.le_add_right _ _) (Nat.le_refl _)

/-- The records of a scope are a part of those of the blocks among which it stands. -/
theorem Contained.hasPart
    {position : Position}
    {block : Block}
    {before : Sizes}
    {blocks : List Block}
    (contained : Contained position block before blocks) :
    (records before blocks).HasPart before (block.assembleAt position).records position.before := by
  induction contained with
  | here isPosition =>
      subst isPosition
      rw [records_cons]
      exact (Records.HasPart.self _ _).append
        ((closed_records _ _).avoids nofun (Or.inr (Nat.le_refl _)))
  | @inside before outer rest inBody =>
      have outerPart :=
        outer.hasPart_of_level ⟨none, before⟩ (inBody.hasPart (Nat.lt_succ_self _) []) nofun
      rw [records_cons]
      exact outerPart.append ((closed_records _ _).avoids nofun (Or.inr outerPart.programs_le))
  | @after before outer rest inRest inductionHypothesis =>
      rw [records_cons]
      refine inductionHypothesis.behind ?_
      refine (outer.closed_assembleAt ⟨none, before⟩).avoids nofun (Or.inl ?_)
      obtain ⟨left, _, _, sizes, _⟩ := inductionHypothesis
      rw [← sizes]
      exact Nat.le_add_right _ _

end Block

end Flowmark
