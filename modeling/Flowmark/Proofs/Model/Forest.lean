import Flowmark.Model
import Flowmark.Proofs.Model.Inventory
import Flowmark.Proofs.Model.Wiring
import Flowmark.Proofs.Outline.Offence

namespace Flowmark

/-!
# The forest of programs

Assembly numbers its records consecutively and links each program with its parent.  A forest is a
list of nodes that shows it: each node is a program with the ports it owns and what it sees of its
children, from which its interface and its channels follow.
-/

/-- Numbers that count up from a first one. -/
def Consecutive
    (first : Nat)
    (ids : List Nat) :
    Prop :=
  ids = List.range' first ids.length

namespace Consecutive

theorem nil
    (first : Nat) :
    Consecutive first [] :=
  rfl

/-- A first number in front of those that count up from the next. -/
theorem cons
    {first : Nat}
    {ids : List Nat}
    (later : Consecutive (first + 1) ids) :
    Consecutive first (first :: ids) := by
  unfold Consecutive at *
  rw [List.length_cons, List.range'_succ, ← later]

/-- Numbers that count up go on where those before them end. -/
theorem append
    {first : Nat}
    {before after : List Nat}
    (beforeIds : Consecutive first before)
    (afterIds : Consecutive (first + before.length) after) :
    Consecutive first (before ++ after) := by
  unfold Consecutive at *
  rw [List.length_append, ← List.range'_append_1, ← beforeIds, ← afterIds]

/-- What is numbered by its places counts up. -/
theorem of_zipIdx
    {α β : Type}
    (first : Nat)
    (items : List α)
    (make : α × Nat → β)
    (id : β → Nat)
    (numbers : ∀ entry, id (make entry) = first + entry.2) :
    Consecutive first ((items.zipIdx.map make).map id) := by
  have shape : (items.zipIdx.map make).map id = List.range' first items.length := by
    rw [List.map_map, show id ∘ make = (first + ·) ∘ Prod.snd from funext numbers,
      ← List.map_map, List.zipIdx_map_snd, List.map_add_range', Nat.add_zero]
  unfold Consecutive
  rw [shape, List.length_range']

/-- Numbers that count up are not repeated. -/
theorem nodup
    {first : Nat}
    {ids : List Nat}
    (consecutive : Consecutive first ids) :
    ids.Nodup := by
  rw [consecutive]
  exact List.nodup_range'

/-- Numbers that count up are all from the first one on, up to their end. -/
theorem mem_iff
    {first : Nat}
    {ids : List Nat}
    (consecutive : Consecutive first ids)
    (id : Nat) :
    id ∈ ids ↔ first ≤ id ∧ id < first + ids.length := by
  rw [consecutive, List.length_range']
  exact List.mem_range'_1

end Consecutive

/-- The programs, ports and channels among records are numbered from the sizes before them. -/
structure Records.Numbered
    (before : Sizes)
    (records : Records) :
    Prop where
  programs : Consecutive before.programs (records.programs.map Program.id)
  ports : Consecutive before.ports (records.ports.map Port.id)
  channels : Consecutive before.channels (records.channels.map Channel.id)

/-- Two groups of records are numbered where the second goes on behind the first. -/
theorem Records.Numbered.append
    {before : Sizes}
    {left right : Records}
    (leftNumbered : left.Numbered before)
    (rightNumbered : right.Numbered (before + left.sizes)) :
    (left ++ right).Numbered before where
  programs := by
    rw [Records.programs_append, List.map_append]
    exact leftNumbered.programs.append (by simpa [Records.sizes] using rightNumbered.programs)
  ports := by
    rw [Records.ports_append, List.map_append]
    exact leftNumbered.ports.append (by simpa [Records.sizes] using rightNumbered.ports)
  channels := by
    rw [Records.channels_append, List.map_append]
    exact leftNumbered.channels.append (by simpa [Records.sizes] using rightNumbered.channels)

/-- A program with the ports that it owns, what it sees of its children, and the sizes before its
channels. -/
structure Node where
  program : Program
  ports : List Port
  members : List Member
  inside : Sizes

namespace Node

/-- The ports that a node owns, by their part in its interface. -/
def own
    (node : Node) :
    Interface :=
  .ofPorts node.ports

/-- The flows between a node and its members, and the interface that is left. -/
def wiring
    (node : Node) :
    Wiring :=
  .ofMembers node.own node.members

/-- The channels of a node. -/
def channels
    (node : Node) :
    List Channel :=
  node.wiring.channels node.program.id node.inside

/-- The artifacts of a node; a call has none. -/
def artifacts
    (node : Node) :
    List Artifact :=
  if node.program.isInvocation then [] else node.wiring.artifacts node.program.id node.inside

/-- What the parent of a node sees of it. -/
def member
    (node : Node) :
    Member where
  program := node.program.id
  synthesized := node.program.isSynthesized
  inputs := node.wiring.interface.inputs
  outputs := node.wiring.interface.allOutputs

/-- The program of a node is made of its ports and its members. -/
structure Sound
    (node : Node) :
    Prop where
  inputs : node.program.inputs = node.wiring.interface.inputs.map Port.id
  outputs : node.program.outputs = node.wiring.interface.outputs.map Port.id
  results : node.program.results = node.wiring.interface.results.map Port.id
  children : node.program.children = node.members.map Member.program
  channels : node.program.channels = node.channels.map Channel.id
  artifacts : node.program.artifacts = node.artifacts.map Artifact.id
  carried : ∀ channel ∈ node.channels,
    ∃ artifact ∈ node.artifacts, artifact.id = channel.artifact
  owners : ∀ port ∈ node.ports, port.owner = node.program.id
  roles : ∀ port ∈ node.ports, port.tag.role = .declares port.direction
  ascending : (node.members.map Member.program).Pairwise (· < ·)
  below : ∀ member ∈ node.members, node.program.id < member.program

end Node

/--
What a body contributes under a parent is made of nodes.  The ports that a call takes over from
before the body belong to a node of it, and the ports that it holds belong to no node yet.
-/
structure Forest
    (parent : Option ProgramId)
    (before : Sizes)
    (taken : List Port)
    (level : Level)
    (nodes : List Node) :
    Prop where
  programs : level.records.programs = nodes.map Node.program
  numbered : level.records.Numbered before
  sound : ∀ node ∈ nodes, node.Sound
  children : ∀ node ∈ nodes, ∀ member ∈ node.members,
    ∃ child ∈ nodes, child.program.parent = some node.program.id ∧ child.member = member
  parents : ∀ node ∈ nodes,
    node.program.parent = parent ∧ node.member ∈ level.members ∨
      ∃ outer ∈ nodes,
        node.program.parent = some outer.program.id ∧ node.member ∈ outer.members
  members : ∀ member ∈ level.members,
    ∃ node ∈ nodes, node.program.parent = parent ∧ node.member = member
  ascending : (level.members.map Member.program).Pairwise (· < ·)
  owned : ∀ port ∈ taken ++ level.records.ports,
    port ∈ level.ports ∨ ∃ node ∈ nodes, port ∈ node.ports
  declared : ∀ node ∈ nodes, node.ports.Sublist (taken ++ level.records.ports)
  held : level.ports.Sublist level.records.ports
  heldSound : ∀ port ∈ level.ports,
    parent = some port.owner ∧ port.tag.role = .declares port.direction
  channels : ∀ channel,
    channel ∈ level.records.channels ↔ ∃ node ∈ nodes, channel ∈ node.channels
  artifacts : ∀ artifact,
    artifact ∈ level.records.artifacts ↔ ∃ node ∈ nodes, artifact ∈ node.artifacts

/-- A program alone as the contribution of a body. -/
def Assembled.level
    (assembled : Assembled) :
    Level where
  records := assembled.records
  members := [assembled.member]
  ports := []

namespace Forest

variable {parent : Option ProgramId} {before : Sizes} {taken : List Port}

/-- An empty body has no nodes. -/
theorem empty
    (parent : Option ProgramId)
    (before : Sizes) :
    Forest parent before [] .empty [] where
  programs := rfl
  numbered := ⟨.nil _, .nil _, .nil _⟩
  sound := by simp
  children := by simp
  parents := by simp
  members := by simp [Level.empty]
  ascending := .nil
  owned := by simp [Level.empty, Records.empty]
  declared := by simp
  held := List.nil_sublist _
  heldSound := by simp [Level.empty]
  channels := by simp [Level.empty, Records.empty]
  artifacts := by simp [Level.empty, Records.empty]

/-- A port with the next number may be put in front of numbered records. -/
theorem numbered_consPort
    {level : Level}
    {port : Port}
    (number : port.id = before.ports)
    (numbered : level.records.Numbered before.addPort) :
    (level.records.consPort port).Numbered before where
  programs := numbered.programs
  ports := by
    rw [Records.consPort, List.map_cons, number]
    exact numbered.ports.cons
  channels := numbered.channels

/-- A port that a call takes over is put in front. -/
theorem consTaken
    {level : Level}
    {nodes : List Node}
    {port : Port}
    (number : port.id = before.ports)
    (forest : Forest parent before.addPort (taken ++ [port]) level nodes) :
    Forest parent before taken (level.consPort port false) nodes where
  programs := forest.programs
  numbered := numbered_consPort number forest.numbered
  sound := forest.sound
  children := forest.children
  parents := forest.parents
  members := forest.members
  ascending := forest.ascending
  owned := by simpa [Level.consPort, Records.consPort] using forest.owned
  declared := by simpa [Level.consPort, Records.consPort] using forest.declared
  held := forest.held.cons port
  heldSound := forest.heldSound
  channels := forest.channels
  artifacts := forest.artifacts

/-- A port that the scope holds is put in front. -/
theorem consHeld
    {level : Level}
    {nodes : List Node}
    {port : Port}
    (number : port.id = before.ports)
    (owner : parent = some port.owner)
    (role : port.tag.role = .declares port.direction)
    (forest : Forest parent before.addPort taken level nodes) :
    Forest parent before taken (level.consPort port true) nodes where
  programs := forest.programs
  numbered := numbered_consPort number forest.numbered
  sound := forest.sound
  children := forest.children
  parents := forest.parents
  members := forest.members
  ascending := forest.ascending
  owned := by
    intro other member
    have cases : other = port ∨ other ∈ taken ++ level.records.ports := by
      simpa [Level.consPort, Records.consPort, or_left_comm] using member
    rcases cases with rfl | member
    · exact Or.inl (by simp [Level.consPort])
    · rcases forest.owned other member with isHeld | ofNode
      · exact Or.inl (by simp [Level.consPort, isHeld])
      · exact Or.inr ofNode
  declared := by
    intro node isNode
    exact (forest.declared node isNode).trans
      ((List.Sublist.refl taken).append (List.sublist_cons_self port _))
  held := forest.held.cons_cons port
  heldSound := List.forall_mem_cons.mpr ⟨⟨owner, role⟩, forest.heldSound⟩
  channels := forest.channels
  artifacts := forest.artifacts

/-- The members of a forest have the numbers of its programs. -/
theorem program_range
    {level : Level}
    {nodes : List Node}
    (forest : Forest parent before taken level nodes)
    {member : Member}
    (isMember : member ∈ level.members) :
    before.programs ≤ member.program ∧
      member.program < before.programs + level.records.programs.length := by
  obtain ⟨node, isNode, _, rfl⟩ := forest.members member isMember
  have inRecords : node.program ∈ level.records.programs := by
    rw [forest.programs]
    exact List.mem_map_of_mem isNode
  have inIds : node.member.program ∈ level.records.programs.map Program.id :=
    List.mem_map_of_mem inRecords
  rw [forest.numbered.programs.mem_iff, List.length_map] at inIds
  exact inIds

/-- Records that come from the nodes of two forests come from those of both together. -/
theorem mem_append_iff_node
    {α : Type}
    {record : α}
    {of : Node → List α}
    {first rest : List α}
    {firstNodes restNodes : List Node}
    (inFirst : record ∈ first ↔ ∃ node ∈ firstNodes, record ∈ of node)
    (inRest : record ∈ rest ↔ ∃ node ∈ restNodes, record ∈ of node) :
    record ∈ first ++ rest ↔ ∃ node ∈ firstNodes ++ restNodes, record ∈ of node := by
  simp only [List.mem_append, inFirst, inRest, or_and_right, exists_or]

/-- The forest of a program is put in front of another one under the same parent. -/
theorem consMember
    {assembled : Assembled}
    {level : Level}
    {first rest : List Node}
    (firstForest : Forest parent before taken assembled.level first)
    (restForest : Forest parent (before + assembled.records.sizes) [] level rest) :
    Forest parent before taken (level.consMember assembled.records assembled.member)
      (first ++ rest) where
  programs := by
    have firstPrograms := firstForest.programs
    simp only [Assembled.level] at firstPrograms
    simp [Level.consMember, firstPrograms, restForest.programs]
  numbered := firstForest.numbered.append restForest.numbered
  sound := by
    intro node isNode
    rcases List.mem_append.mp isNode with inFirst | inRest
    · exact firstForest.sound node inFirst
    · exact restForest.sound node inRest
  children := by
    intro node isNode member isMember
    rcases List.mem_append.mp isNode with inFirst | inRest
    · obtain ⟨child, isChild, link⟩ := firstForest.children node inFirst member isMember
      exact ⟨child, List.mem_append_left _ isChild, link⟩
    · obtain ⟨child, isChild, link⟩ := restForest.children node inRest member isMember
      exact ⟨child, List.mem_append_right _ isChild, link⟩
  parents := by
    intro node isNode
    rcases List.mem_append.mp isNode with inFirst | inRest
    · rcases firstForest.parents node inFirst with ⟨sameParent, isMember⟩ | ⟨outer, isOuter, link⟩
      · rw [List.mem_singleton.mp isMember]
        exact Or.inl ⟨sameParent, List.mem_cons_self⟩
      · exact Or.inr ⟨outer, List.mem_append_left _ isOuter, link⟩
    · rcases restForest.parents node inRest with ⟨sameParent, isMember⟩ | ⟨outer, isOuter, link⟩
      · exact Or.inl ⟨sameParent, List.mem_cons_of_mem _ isMember⟩
      · exact Or.inr ⟨outer, List.mem_append_right _ isOuter, link⟩
  members := by
    intro member isMember
    rcases List.mem_cons.mp isMember with rfl | inLevel
    · obtain ⟨node, isNode, link⟩ := firstForest.members assembled.member List.mem_cons_self
      exact ⟨node, List.mem_append_left _ isNode, link⟩
    · obtain ⟨node, isNode, link⟩ := restForest.members member inLevel
      exact ⟨node, List.mem_append_right _ isNode, link⟩
  ascending := by
    refine List.pairwise_cons.mpr ⟨?_, restForest.ascending⟩
    intro later isLater
    obtain ⟨member, isMember, rfl⟩ := List.mem_map.mp isLater
    -- The numbers of the second forest start where those of the first end.
    have firstRange := firstForest.program_range (List.mem_singleton_self assembled.member)
    exact Nat.lt_of_lt_of_le firstRange.2 (restForest.program_range isMember).1
  owned := by
    intro port isPort
    have cases : port ∈ taken ++ assembled.records.ports ∨ port ∈ level.records.ports := by
      simpa [Level.consMember, or_assoc] using isPort
    rcases cases with inFirst | inRest
    · rcases firstForest.owned port inFirst with isHeld | ⟨node, isNode, ofNode⟩
      · cases isHeld
      · exact Or.inr ⟨node, List.mem_append_left _ isNode, ofNode⟩
    · rcases restForest.owned port inRest with isHeld | ⟨node, isNode, ofNode⟩
      · exact Or.inl isHeld
      · exact Or.inr ⟨node, List.mem_append_right _ isNode, ofNode⟩
  declared := by
    intro node isNode
    change node.ports.Sublist (taken ++ (assembled.records.ports ++ level.records.ports))
    rw [← List.append_assoc]
    rcases List.mem_append.mp isNode with inFirst | inRest
    · exact (firstForest.declared node inFirst).trans (List.sublist_append_left _ _)
    · exact (restForest.declared node inRest).trans (List.sublist_append_right _ _)
  held := restForest.held.trans (List.sublist_append_right _ _)
  heldSound := restForest.heldSound
  channels := fun channel =>
    mem_append_iff_node (firstForest.channels channel) (restForest.channels channel)
  artifacts := fun artifact =>
    mem_append_iff_node (firstForest.artifacts artifact) (restForest.artifacts artifact)

end Forest

end Flowmark
