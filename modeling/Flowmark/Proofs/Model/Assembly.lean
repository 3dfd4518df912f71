import Flowmark.Proofs.Model.Acceptance
import Flowmark.Proofs.Model.Forest

namespace Flowmark

/-!
# Assembled forests

The recursion on the outline makes a forest at each step, so that every model is one.
-/

/-- No opener opens an invocation. -/
theorem ProgramKind.ofOpener_ne_invocation
    (opener : Statement) :
    ofOpener opener ≠ .invocation := by
  unfold ofOpener
  split <;> nofun

namespace Node

/-- The node of a call, which owns the ports that the call takes over. -/
def ofCall
    (scope : ProgramId)
    (before : Sizes)
    (site : Statement)
    (taken : List Port) :
    Node where
  program := (Assembled.ofCall scope before site taken).records.programs.head
    (List.cons_ne_nil _ _)
  ports := taken
  members := []
  inside := before

/-- The node of a scope, which owns the ports that its body holds. -/
def ofScope
    (parent : Option ProgramId)
    (before : Sizes)
    (opener closer : Statement)
    (level : Level) :
    Node where
  program := (Assembled.ofScope parent before opener closer level).records.programs.head
    (List.cons_ne_nil _ _)
  ports := level.ports
  members := level.members
  inside := before + level.records.sizes

section OfCall

variable {scope : ProgramId} {before : Sizes} {site : Statement} {taken : List Port}

/-- A call that takes over ports other than results has no flows and shows these ports. -/
theorem wiring_ofCall
    (noResult : ∀ port ∈ taken, port.tag ≠ .result) :
    (ofCall scope before site taken).wiring =
      { flows := []
        interface := {
          inputs := taken.filter Port.isInput
          outputs := taken.filter Port.isPlainOutput
          results := [] } } := by
  have noResults : taken.filter Port.isResult = [] := by
    rw [List.filter_eq_nil_iff]
    intro port isTaken
    simpa [Port.isResult] using noResult port isTaken
  rw [← noResults]
  exact Wiring.ofMembers_nil _

/-- A call has no channels. -/
theorem channels_ofCall
    (noResult : ∀ port ∈ taken, port.tag ≠ .result) :
    (ofCall scope before site taken).channels = [] := by
  rw [channels, wiring_ofCall noResult]
  rfl

/-- A call has no artifacts. -/
theorem artifacts_ofCall :
    (ofCall scope before site taken).artifacts = [] :=
  rfl

/-- What the parent sees of a call is the member that was assembled. -/
theorem member_ofCall
    (noResult : ∀ port ∈ taken, port.tag ≠ .result) :
    (ofCall scope before site taken).member =
      (Assembled.ofCall scope before site taken).member := by
  rw [member, wiring_ofCall noResult]
  simp [Interface.allOutputs, Assembled.ofCall, ofCall, Program.isSynthesized, Records.consProgram]

/-- The node of a call is sound. -/
theorem sound_ofCall
    (owners : ∀ port ∈ taken, port.owner = before.programs)
    (noResult : ∀ port ∈ taken, port.tag ≠ .result)
    (roles : ∀ port ∈ taken, port.tag.role = .declares port.direction) :
    (ofCall scope before site taken).Sound where
  inputs := by
    rw [wiring_ofCall noResult]
    rfl
  outputs := by
    rw [wiring_ofCall noResult]
    rfl
  results := by
    rw [wiring_ofCall noResult]
    rfl
  children := rfl
  channels := by
    rw [channels_ofCall noResult]
    rfl
  artifacts := rfl
  carried := by simp [channels_ofCall noResult]
  owners := owners
  roles := roles
  ascending := .nil
  below := by simp [ofCall]

end OfCall

section OfScope

variable {parent : Option ProgramId} {before : Sizes} {opener closer : Statement} {level : Level}

/-- A scope has the artifacts of its wiring. -/
theorem artifacts_ofScope :
    (ofScope parent before opener closer level).artifacts =
      (ofScope parent before opener closer level).wiring.artifacts before.programs
        (before + level.records.sizes) := by
  have noCall : (ofScope parent before opener closer level).program.isInvocation = false :=
    decide_eq_false (ProgramKind.ofOpener_ne_invocation opener)
  rw [artifacts, noCall]
  rfl

/-- The node of a scope with the forest of its body is sound. -/
theorem sound_ofScope
    {nodes : List Node}
    (forest : Forest (some before.programs) before.addProgram [] level nodes) :
    (ofScope parent before opener closer level).Sound where
  inputs := rfl
  outputs := rfl
  results := rfl
  children := rfl
  channels := rfl
  artifacts := by
    rw [artifacts_ofScope]
    rfl
  carried := by
    intro channel isChannel
    rw [artifacts_ofScope]
    exact Wiring.exists_artifact_of_channel isChannel
  owners := by
    intro port isHeld
    exact (Option.some.inj (forest.heldSound port isHeld).1).symm
  roles := fun port isHeld => (forest.heldSound port isHeld).2
  ascending := forest.ascending
  below := fun member isMember => (forest.program_range isMember).1

end OfScope

end Node

namespace Forest

variable {parent : Option ProgramId} {before : Sizes}

/-- A call is a forest of one node, which owns the ports that the call takes over. -/
theorem ofCall
    {scope : ProgramId}
    {taken : List Port}
    (owners : ∀ port ∈ taken, port.owner = before.programs)
    (noResult : ∀ port ∈ taken, port.tag ≠ .result)
    (roles : ∀ port ∈ taken, port.tag.role = .declares port.direction)
    (site : Statement) :
    Forest (some scope) before taken (Assembled.ofCall scope before site taken).level
      [.ofCall scope before site taken] where
  programs := rfl
  numbered := ⟨(Consecutive.nil _).cons, .nil _, .nil _⟩
  sound := List.forall_mem_singleton.mpr (Node.sound_ofCall owners noResult roles)
  children := by simp [Node.ofCall]
  parents := by
    refine List.forall_mem_singleton.mpr (Or.inl ⟨rfl, ?_⟩)
    rw [Node.member_ofCall noResult]
    exact List.mem_singleton_self _
  members := List.forall_mem_singleton.mpr
    ⟨_, List.mem_singleton_self _, rfl, Node.member_ofCall noResult⟩
  ascending := List.pairwise_singleton _ _
  owned := by
    intro port isPort
    have isTaken : port ∈ taken := by
      simpa [Assembled.level, Assembled.ofCall, Records.consProgram, Records.empty] using isPort
    exact Or.inr ⟨_, List.mem_singleton_self _, isTaken⟩
  declared := List.forall_mem_singleton.mpr (List.sublist_append_left _ _)
  held := .slnil
  heldSound := by simp [Assembled.level]
  channels := by
    simp [Node.channels_ofCall noResult, Assembled.level, Assembled.ofCall, Records.consProgram,
      Records.empty]
  artifacts := by
    simp [Node.artifacts_ofCall, Assembled.level, Assembled.ofCall, Records.consProgram,
      Records.empty]

/-- A scope is the forest of its body under a node that owns the ports which the body holds. -/
theorem ofScope
    {level : Level}
    {nodes : List Node}
    (forest : Forest (some before.programs) before.addProgram [] level nodes)
    (opener closer : Statement) :
    Forest parent before [] (Assembled.ofScope parent before opener closer level).level
      (.ofScope parent before opener closer level :: nodes) where
  programs := by
    rw [List.map_cons, ← forest.programs]
    rfl
  numbered := by
    refine ⟨forest.numbered.programs.cons, forest.numbered.ports, ?_⟩
    change Consecutive before.channels
      ((level.records.channels ++
        (Node.ofScope parent before opener closer level).channels).map Channel.id)
    rw [List.map_append]
    refine forest.numbered.channels.append ?_
    rw [List.length_map]
    exact Consecutive.of_zipIdx _ _ _ _ fun _ => rfl
  sound := List.forall_mem_cons.mpr ⟨Node.sound_ofScope forest, forest.sound⟩
  children := by
    refine List.forall_mem_cons.mpr ⟨?_, ?_⟩
    · intro member isMember
      obtain ⟨child, isChild, link⟩ := forest.members member isMember
      exact ⟨child, List.mem_cons_of_mem _ isChild, link⟩
    · intro inner isInner member isMember
      obtain ⟨child, isChild, link⟩ := forest.children inner isInner member isMember
      exact ⟨child, List.mem_cons_of_mem _ isChild, link⟩
  parents := by
    refine List.forall_mem_cons.mpr ⟨Or.inl ⟨rfl, List.mem_singleton_self _⟩, ?_⟩
    intro inner isInner
    rcases forest.parents inner isInner with link | ⟨outer, isOuter, link⟩
    · exact Or.inr ⟨_, List.mem_cons_self, link⟩
    · exact Or.inr ⟨outer, List.mem_cons_of_mem _ isOuter, link⟩
  members := List.forall_mem_singleton.mpr ⟨_, List.mem_cons_self, rfl, rfl⟩
  ascending := List.pairwise_singleton _ _
  owned := by
    intro port isPort
    rcases forest.owned port isPort with isHeld | ⟨inner, isInner, ofInner⟩
    · exact Or.inr ⟨_, List.mem_cons_self, isHeld⟩
    · exact Or.inr ⟨inner, List.mem_cons_of_mem _ isInner, ofInner⟩
  declared := List.forall_mem_cons.mpr ⟨forest.held, forest.declared⟩
  held := List.nil_sublist _
  heldSound := by simp [Assembled.level]
  channels := by
    intro channel
    change channel ∈ level.records.channels ++
      (Node.ofScope parent before opener closer level).channels ↔ _
    rw [List.mem_append, forest.channels]
    simp [or_comm]
  artifacts := by
    intro artifact
    change artifact ∈ level.records.artifacts ++
      (Node.ofScope parent before opener closer level).wiring.artifacts before.programs
        (before + level.records.sizes) ↔ _
    rw [← Node.artifacts_ofScope, List.mem_append, forest.artifacts]
    simp [or_comm]

/-- A body makes a forest, with the ports that its first call takes over from before. -/
theorem ofOutline
    {outline : Outline}
    (roles : outline.HasRoles)
    (scope : ProgramId)
    (before : Sizes)
    {taken : List Port}
    (takenByCall : taken = [] ∨ outline.callAhead = true)
    (owners : ∀ port ∈ taken, port.owner = before.programs)
    (noResult : ∀ port ∈ taken, port.tag ≠ .result)
    (takenRoles : ∀ port ∈ taken, port.tag.role = .declares port.direction) :
    ∃ nodes, Forest (some scope) before taken (outline.assemble scope before taken) nodes := by
  -- What a call takes over is collected on the way to it, so `taken` grows with the outline.
  induction outline generalizing scope before taken with
  | nil =>
      rcases takenByCall with rfl | noCall
      · exact ⟨[], .empty _ _⟩
      · cases noCall
  | port declaration direction rest inductionHypothesis =>
      obtain ⟨declares, restRoles⟩ := roles
      rw [Outline.assemble]
      split
      · rename_i isTaken
        obtain ⟨notResult, callAhead⟩ := Bool.and_eq_true_iff.mp isTaken
        let port := Port.ofStatement before.ports before.programs declaration direction
        have portRole : port.tag.role = .declares port.direction := declares
        have portNoResult : port.tag ≠ .result := bne_iff_ne.mp notResult
        obtain ⟨nodes, forest⟩ := @inductionHypothesis restRoles scope before.addPort
          (taken ++ [port])
          (Or.inr callAhead)
          (List.forall_mem_append.mpr ⟨owners, List.forall_mem_singleton.mpr rfl⟩)
          (List.forall_mem_append.mpr ⟨noResult, List.forall_mem_singleton.mpr portNoResult⟩)
          (List.forall_mem_append.mpr ⟨takenRoles, List.forall_mem_singleton.mpr portRole⟩)
        exact ⟨nodes, forest.consTaken rfl⟩
      · obtain ⟨nodes, forest⟩ := inductionHypothesis restRoles scope before.addPort
          takenByCall owners noResult takenRoles
        exact ⟨nodes, forest.consHeld rfl rfl declares⟩
  | call site rest inductionHypothesis =>
      have leafForest := @ofCall before scope taken owners noResult takenRoles site
      obtain ⟨nodes, forest⟩ := @inductionHypothesis roles.2 scope
        (before + (Assembled.ofCall scope before site taken).records.sizes) []
        (Or.inl rfl) (by simp) (by simp) (by simp)
      exact ⟨_, leafForest.consMember forest⟩
  | scope opener body closer rest bodyHypothesis inductionHypothesis =>
      obtain ⟨_, bodyRoles, _, restRoles⟩ := roles
      rcases takenByCall with rfl | noCall
      · obtain ⟨inner, innerForest⟩ := @bodyHypothesis bodyRoles before.programs
          before.addProgram [] (Or.inl rfl) (by simp) (by simp) (by simp)
        have nodeForest := @ofScope (some scope) before _ _ innerForest opener closer
        obtain ⟨nodes, forest⟩ := @inductionHypothesis restRoles scope _ []
          (Or.inl rfl) (by simp) (by simp) (by simp)
        exact ⟨_, nodeForest.consMember forest⟩
      · cases noCall

/-- A block makes a forest without a parent. -/
theorem ofBlock
    {block : Block}
    (roles : block.HasRoles)
    (before : Sizes) :
    ∃ nodes, Forest none before [] (block.assemble before).level nodes := by
  obtain ⟨inner, innerForest⟩ := @ofOutline _ roles.body before.programs before.addProgram []
    (Or.inl rfl) (by simp) (by simp) (by simp)
  exact ⟨_, ofScope innerForest block.opener block.closer⟩

/-- Blocks one after another make a forest without a parent. -/
theorem ofBlocks
    {blocks : List Block}
    (roles : ∀ block ∈ blocks, block.HasRoles)
    (before : Sizes) :
    ∃ nodes, Forest none before []
      { records := Records.join ((Block.assembleAll before blocks).map Assembled.records)
        members := (Block.assembleAll before blocks).map Assembled.member
        ports := [] }
      nodes := by
  induction blocks generalizing before with
  | nil => exact ⟨[], .empty _ _⟩
  | cons block blocks inductionHypothesis =>
      obtain ⟨blockRoles, restRoles⟩ := List.forall_mem_cons.mp roles
      obtain ⟨first, firstForest⟩ := ofBlock blockRoles before
      obtain ⟨rest, restForest⟩ :=
        inductionHypothesis restRoles (before + (block.assemble before).records.sizes)
      exact ⟨first ++ rest, firstForest.consMember restForest⟩

end Forest

namespace Model

/-- A model is formed by the nodes of a forest without a parent, whose members are at the top. -/
def FormedBy
    (model : Model)
    (nodes : List Node) :
    Prop :=
  ∃ members,
    Forest none .zero []
        { records := model.toRecords
          members := members
          ports := [] }
        nodes ∧
      model.topLevel = members.map Member.program

/-- The model of an accepted transcript is formed by nodes. -/
theorem formedBy_of_ofTranscript
    {workflow : Option String}
    {transcript : Transcript}
    {model : Model}
    (accepted : ofTranscript workflow transcript = .ok model) :
    ∃ nodes, model.FormedBy nodes := by
  obtain ⟨blocks, isRead, rfl⟩ := blocks_of_ofTranscript accepted
  obtain ⟨roles, _⟩ := Transcript.blocks_of_ofStatements isRead
  obtain ⟨nodes, forest⟩ := Forest.ofBlocks roles .zero
  refine ⟨nodes, _, forest, ?_⟩
  rw [List.map_map]
  rfl

end Model

end Flowmark
