import Flowmark.Proofs.Model.Lookup

namespace Flowmark

/-!
# Filing of records

A program lists its children, its channels and its artifacts, and a model lists the programs that
stand in no other.  Each of these lists has exactly the records that name the program, in the order
of their numbers.
-/

/-- Numbers that are exactly those of the records which pass a test, each once and in increasing
order. -/
structure Enumerates
    {α : Type}
    (ids : List Nat)
    (records : List α)
    (id : α → Nat)
    (test : α → Prop) :
    Prop where
  ascending : ids.Pairwise (· < ·)
  mem_iff : ∀ number, number ∈ ids ↔ ∃ record ∈ records, id record = number ∧ test record

/-- Numbers that count up are ascending. -/
theorem Consecutive.ascending
    {first : Nat}
    {ids : List Nat}
    (consecutive : Consecutive first ids) :
    ids.Pairwise (· < ·) := by
  rw [consecutive]
  exact List.pairwise_lt_range'

namespace Node

variable (node : Node)

/-- The channels of a node are in ascending order. -/
theorem ascending_channels :
    (node.channels.map Channel.id).Pairwise (· < ·) := by
  have numbers : Consecutive node.inside.channels (node.channels.map Channel.id) :=
    .of_zipIdx _ _ _ _ fun _ => rfl
  exact numbers.ascending

/-- The artifacts of a node are in ascending order. -/
theorem ascending_artifacts :
    (node.artifacts.map Artifact.id).Pairwise (· < ·) := by
  unfold artifacts
  split
  · exact .nil
  · have numbers : Consecutive node.inside.artifacts
        ((node.wiring.artifacts node.program.id node.inside).map Artifact.id) :=
      .of_zipIdx _ _ _ _ fun _ => rfl
    exact numbers.ascending

/-- The artifacts of a node name its program as their scope. -/
theorem scope_of_mem_artifacts
    {node : Node}
    {artifact : Artifact}
    (isArtifact : artifact ∈ node.artifacts) :
    artifact.scope = node.program.id := by
  unfold artifacts at isArtifact
  split at isArtifact
  · cases isArtifact
  · obtain ⟨_, _, rfl⟩ := List.mem_map.mp isArtifact
    rfl

end Node

namespace Model

/-- Every record is listed where it belongs. -/
structure Filed
    (model : Model) :
    Prop where
  topLevel :
    Enumerates model.topLevel model.programs Program.id fun program => program.parent = none
  children : ∀ program ∈ model.programs,
    Enumerates program.children model.programs Program.id fun child =>
      child.parent = some program.id
  channels : ∀ program ∈ model.programs,
    Enumerates program.channels model.channels Channel.id fun channel =>
      channel.scope = program.id
  artifacts : ∀ program ∈ model.programs,
    Enumerates program.artifacts model.artifacts Artifact.id fun artifact =>
      artifact.scope = program.id

namespace FormedBy

variable {model : Model} {nodes : List Node} {node : Node}

/-- The artifacts of the model are those of its nodes. -/
theorem mem_artifacts_iff
    (formed : model.FormedBy nodes)
    (artifact : Artifact) :
    artifact ∈ model.artifacts ↔ ∃ node ∈ nodes, artifact ∈ node.artifacts := by
  obtain ⟨_, forest, _⟩ := formed
  exact forest.artifacts artifact

/-- The programs at the top are those without a parent. -/
theorem enumerates_topLevel
    (formed : model.FormedBy nodes) :
    Enumerates model.topLevel model.programs Program.id fun program => program.parent = none := by
  have programs := formed.programs
  obtain ⟨members, forest, topLevel⟩ := formed
  rw [topLevel]
  refine ⟨forest.ascending, fun number => ⟨?_, ?_⟩⟩
  · intro isListed
    obtain ⟨member, isMember, rfl⟩ := List.mem_map.mp isListed
    obtain ⟨node, isNode, noParent, rfl⟩ := forest.members member isMember
    refine ⟨node.program, ?_, rfl, noParent⟩
    rw [programs]
    exact List.mem_map_of_mem isNode
  · rintro ⟨program, isProgram, rfl, noParent⟩
    rw [programs] at isProgram
    obtain ⟨node, isNode, rfl⟩ := List.mem_map.mp isProgram
    rcases forest.parents node isNode with ⟨_, isMember⟩ | ⟨outer, _, isParent, _⟩
    · exact List.mem_map.mpr ⟨node.member, isMember, rfl⟩
    · rw [noParent] at isParent
      cases isParent

/-- The children of a program are those that name it as their parent. -/
theorem enumerates_children
    (formed : model.FormedBy nodes)
    (isNode : node ∈ nodes) :
    Enumerates node.program.children model.programs Program.id fun child =>
      child.parent = some node.program.id := by
  have sound := formed.sound isNode
  rw [sound.children]
  refine ⟨sound.ascending, fun number => ⟨?_, ?_⟩⟩
  · intro isListed
    obtain ⟨member, isMember, rfl⟩ := List.mem_map.mp isListed
    obtain ⟨child, isChild, isParent, rfl⟩ := formed.child_of_member isNode isMember
    exact ⟨child.program, formed.mem_programs_of_node isChild, rfl, isParent⟩
  · rintro ⟨program, isProgram, rfl, isParent⟩
    obtain ⟨child, isChild, rfl⟩ := formed.node_of_mem isProgram
    exact List.mem_map.mpr
      ⟨child.member, formed.member_of_parent isNode isChild isParent, rfl⟩

/-- Where the records of a sort are those of the nodes, and name their nodes, the numbers that a
node has are those of the records that name it. -/
theorem enumerates_of_nodes
    (formed : model.FormedBy nodes)
    (isNode : node ∈ nodes)
    {α : Type}
    {records : List α}
    {id scope : α → Nat}
    {of : Node → List α}
    (ascending : ((of node).map id).Pairwise (· < ·))
    (mem_iff : ∀ record, record ∈ records ↔ ∃ node ∈ nodes, record ∈ of node)
    (scopes : ∀ node, ∀ record ∈ of node, scope record = node.program.id) :
    Enumerates ((of node).map id) records id fun record => scope record = node.program.id := by
  refine ⟨ascending, fun number => ?_⟩
  simp only [List.mem_map, formed.mem_of_node_iff isNode mem_iff scopes, and_assoc, and_comm]

/-- The channels of a program are those that name it as their scope. -/
theorem enumerates_channels
    (formed : model.FormedBy nodes)
    (isNode : node ∈ nodes) :
    Enumerates node.program.channels model.channels Channel.id fun channel =>
      channel.scope = node.program.id := by
  rw [(formed.sound isNode).channels]
  exact formed.enumerates_of_nodes isNode node.ascending_channels formed.mem_channels_iff
    fun _ _ => Node.scope_of_mem_channels

/-- The artifacts of a program are those that name it as their scope. -/
theorem enumerates_artifacts
    (formed : model.FormedBy nodes)
    (isNode : node ∈ nodes) :
    Enumerates node.program.artifacts model.artifacts Artifact.id fun artifact =>
      artifact.scope = node.program.id := by
  rw [(formed.sound isNode).artifacts]
  exact formed.enumerates_of_nodes isNode node.ascending_artifacts formed.mem_artifacts_iff
    fun _ _ => Node.scope_of_mem_artifacts

/-- In a formed model every record is listed where it belongs. -/
theorem filed
    (formed : model.FormedBy nodes) :
    model.Filed where
  topLevel := formed.enumerates_topLevel
  children := by
    intro program isProgram
    obtain ⟨node, isNode, rfl⟩ := formed.node_of_mem isProgram
    exact formed.enumerates_children isNode
  channels := by
    intro program isProgram
    obtain ⟨node, isNode, rfl⟩ := formed.node_of_mem isProgram
    exact formed.enumerates_channels isNode
  artifacts := by
    intro program isProgram
    obtain ⟨node, isNode, rfl⟩ := formed.node_of_mem isProgram
    exact formed.enumerates_artifacts isNode

/-- The artifact of a channel belongs to the scope of the channel. -/
theorem exists_carried
    (formed : model.FormedBy nodes)
    {channel : Channel}
    (isChannel : channel ∈ model.channels) :
    ∃ artifact ∈ model.artifacts,
      artifact.id = channel.artifact ∧ artifact.scope = channel.scope := by
  obtain ⟨node, isNode, ofNode⟩ := (formed.mem_channels_iff channel).mp isChannel
  obtain ⟨artifact, isArtifact, carried⟩ := (formed.sound isNode).carried channel ofNode
  refine ⟨artifact, (formed.mem_artifacts_iff artifact).mpr ⟨node, isNode, isArtifact⟩, carried, ?_⟩
  rw [Node.scope_of_mem_artifacts isArtifact, Node.scope_of_mem_channels ofNode]

end FormedBy

end Model

end Flowmark
