import Flowmark.Proofs.Model.Lineage

namespace Flowmark

/-!
# Interfaces of programs

A program shows each port once, in the list of its direction, and shows none that is not declared in
its subtree.  So no port is twice a producer or twice a consumer of one scope.
-/

namespace Node

/-- The own ports of a node are those of the direction that it owns. -/
theorem mem_own_ports_iff
    {node : Node}
    (sound : node.Sound)
    (direction : Direction)
    (port : Port) :
    port ∈ node.own.ports direction ↔ port ∈ node.ports ∧ port.direction = direction := by
  cases direction with
  | input =>
      change port ∈ node.ports.filter Port.isInput ↔ _
      simp [Port.isInput]
  | output =>
      change port ∈ node.ports.filter Port.isPlainOutput ++ node.ports.filter Port.isResult ↔ _
      rw [List.mem_append, List.mem_filter, List.mem_filter, ← and_or_left]
      apply and_congr_right
      intro isPort
      have role := sound.roles port isPort
      cases isInput : port.direction with
      | input =>
          have notResult : port.tag ≠ .result := by
            intro isResult
            rw [isResult, isInput] at role
            cases role
          simp [Port.isPlainOutput, Port.isInput, Port.isResult, isInput, notResult]
      | output =>
          simp [Port.isPlainOutput, Port.isInput, Port.isResult, isInput, Decidable.em, or_comm]

/-- A node has no own port twice where it owns none twice. -/
theorem nodup_own_ports
    {node : Node}
    (nodup : node.ports.Nodup)
    (direction : Direction) :
    (node.own.ports direction).Nodup := by
  cases direction with
  | input => exact nodup.filter _
  | output =>
      change (node.ports.filter Port.isPlainOutput ++ node.ports.filter Port.isResult).Nodup
      refine List.nodup_append.mpr ⟨nodup.filter _, nodup.filter _, ?_⟩
      rintro port isPlain _ isResult rfl
      have plain := (List.mem_filter.mp isPlain).2
      simp [Port.isPlainOutput, (List.mem_filter.mp isResult).2] at plain

/-- What a node shows is found in its model, and each port of it once. -/
structure Apart
    (model : Model)
    (node : Node) :
    Prop where
  shown : ∀ direction, ∀ port ∈ node.wiring.interface.ports direction,
    port ∈ model.ports ∧
      port.direction = direction ∧
      node.program.id ∈ model.lineage port.owner
  nodup : ∀ direction, (node.wiring.interface.ports direction).Nodup
  distinct : Wiring.Distinct node.own node.members

@[simp] theorem ports_member
    (node : Node)
    (direction : Direction) :
    node.member.ports direction = node.wiring.interface.ports direction := by
  cases direction <;> rfl

end Node

namespace Model.FormedBy

variable {model : Model} {nodes : List Node}

/-- The ports of the model are those that the nodes own. -/
theorem mem_ports_iff
    (formed : model.FormedBy nodes)
    (port : Port) :
    port ∈ model.ports ↔ ∃ node ∈ nodes, port ∈ node.ports := by
  obtain ⟨_, forest, _⟩ := formed
  constructor
  · intro isPort
    rcases forest.owned port isPort with isHeld | ofNode
    · cases isHeld
    · exact ofNode
  · rintro ⟨node, isNode, isPort⟩
    exact (forest.declared node isNode).subset isPort

/-- No node owns a port twice. -/
theorem nodup_node_ports
    (formed : model.FormedBy nodes)
    {node : Node}
    (isNode : node ∈ nodes) :
    node.ports.Nodup := by
  have nodup : model.ports.Nodup := formed.numbered.ports.nodup.of_map
  obtain ⟨_, forest, _⟩ := formed
  exact nodup.sublist (forest.declared node isNode)

section Children

variable {node : Node}

/-- The children of a node, each apart. -/
abbrev ChildrenApart
    (model : Model)
    (nodes : List Node)
    (node : Node) :
    Prop :=
  ∀ child ∈ nodes, child.program.parent = some node.program.id → child.Apart model

/-- A port that a member shows comes from the subtree of a child. -/
theorem child_of_shown
    (formed : model.FormedBy nodes)
    (isNode : node ∈ nodes)
    (childrenApart : ChildrenApart model nodes node)
    {member : Member}
    (isMember : member ∈ node.members)
    {direction : Direction}
    {port : Port}
    (isShown : port ∈ member.ports direction) :
    port ∈ model.ports ∧
      port.direction = direction ∧
      ∃ child ∈ nodes,
        child.program.parent = some node.program.id ∧
          child.member = member ∧
          child.program.id ∈ model.lineage port.owner := by
  obtain ⟨child, isChild, isParent, rfl⟩ := formed.child_of_member isNode isMember
  rw [Node.ports_member] at isShown
  obtain ⟨isPort, sameDirection, inLineage⟩ :=
    (childrenApart child isChild isParent).shown direction port isShown
  exact ⟨isPort, sameDirection, child, isChild, isParent, rfl, inLineage⟩

/-- What a member shows belongs to a program other than the scope. -/
theorem owner_ne_of_shown
    (formed : model.FormedBy nodes)
    (isNode : node ∈ nodes)
    (childrenApart : ChildrenApart model nodes node)
    {member : Member}
    (isMember : member ∈ node.members)
    {direction : Direction}
    {port : Port}
    (isShown : port ∈ member.ports direction) :
    port.owner ≠ node.program.id := by
  obtain ⟨_, _, child, isChild, isParent, _, inLineage⟩ :=
    formed.child_of_shown isNode childrenApart isMember isShown
  have before : node.program.id < child.program.id :=
    (formed.sound isNode).below _ (formed.member_of_parent isNode isChild isParent)
  intro sameOwner
  rw [sameOwner] at inLineage
  exact absurd before (Nat.not_lt_of_le (le_of_mem_lineage inLineage))

/-- Different members of a node show different ports. -/
theorem member_ext_of_shown
    (formed : model.FormedBy nodes)
    (isNode : node ∈ nodes)
    (childrenApart : ChildrenApart model nodes node)
    {first second : Member}
    (isFirst : first ∈ node.members)
    (isSecond : second ∈ node.members)
    {firstDirection secondDirection : Direction}
    {firstPort secondPort : Port}
    (firstShows : firstPort ∈ first.ports firstDirection)
    (secondShows : secondPort ∈ second.ports secondDirection)
    (sameOwner : firstPort.owner = secondPort.owner) :
    first = second := by
  obtain ⟨_, _, firstChild, isFirstChild, firstParent, rfl, firstInLineage⟩ :=
    formed.child_of_shown isNode childrenApart isFirst firstShows
  obtain ⟨_, _, secondChild, isSecondChild, secondParent, rfl, secondInLineage⟩ :=
    formed.child_of_shown isNode childrenApart isSecond secondShows
  rw [formed.sibling_ext isNode isFirstChild isSecondChild firstParent secondParent
    firstInLineage (sameOwner ▸ secondInLineage)]

/-- The own ports of a node and what its members show are all different. -/
theorem nodup_own_append_shown
    (formed : model.FormedBy nodes)
    (isNode : node ∈ nodes)
    (childrenApart : ChildrenApart model nodes node)
    (ownDirection direction : Direction) :
    (node.own.ports ownDirection ++
      node.members.flatMap fun member => member.ports direction).Nodup := by
  have sound := formed.sound isNode
  refine List.nodup_append.mpr
    ⟨Node.nodup_own_ports (formed.nodup_node_ports isNode) ownDirection, ?_, ?_⟩
  · rw [List.nodup_flatMap]
    refine ⟨?_, ?_⟩
    · intro member isMember
      obtain ⟨child, isChild, isParent, rfl⟩ := formed.child_of_member isNode isMember
      rw [Node.ports_member]
      exact (childrenApart child isChild isParent).nodup direction
    · have ascending := List.pairwise_map.mp sound.ascending
      refine ascending.imp_of_mem ?_
      intro first second isFirst isSecond before port firstShows secondShows
      rw [formed.member_ext_of_shown isNode childrenApart isFirst isSecond firstShows secondShows
        rfl] at before
      exact Nat.lt_irrefl _ before
  · rintro port isOwn _ isShown rfl
    obtain ⟨member, isMember, memberShows⟩ := List.mem_flatMap.mp isShown
    apply formed.owner_ne_of_shown isNode childrenApart isMember memberShows
    exact sound.owners port ((Node.mem_own_ports_iff sound ownDirection port).mp isOwn).1

end Children

/-- Every node is apart from the others. -/
theorem apart
    (formed : model.FormedBy nodes)
    {node : Node}
    (isNode : node ∈ nodes) :
    node.Apart model := by
  refine formed.node_induction ?_ isNode
  intro node isNode childrenApart
  have sound := formed.sound isNode
  have separate := formed.nodup_own_append_shown isNode childrenApart
  have distinct : Wiring.Distinct node.own node.members :=
    { producers := separate .input .output
      consumers := List.nodup_append_comm.mp (separate .output .input) }
  refine ⟨?_, fun direction => distinct.nodup_ports (separate direction direction), distinct⟩
  intro direction port isShown
  rcases (distinct.mem_ports_iff direction port).mp isShown with
    isOwn | ⟨⟨member, isMember, memberShows⟩, _⟩
  · obtain ⟨isPort, sameDirection⟩ := (Node.mem_own_ports_iff sound direction port).mp isOwn
    refine ⟨(formed.mem_ports_iff port).mpr ⟨node, isNode, isPort⟩, sameDirection, ?_⟩
    rw [sound.owners port isPort]
    exact mem_lineage_self model node.program.id
  · obtain ⟨isPort, sameDirection, child, isChild, isParent, _, inLineage⟩ :=
      formed.child_of_shown isNode childrenApart isMember memberShows
    refine ⟨isPort, sameDirection, ?_⟩
    obtain ⟨inner, shape⟩ := lineage_eq_append inLineage
    rw [shape, formed.lineage_of_child isNode isChild isParent]
    exact List.mem_append_right _ (List.mem_cons_of_mem _ (mem_lineage_self model _))

/-- The children of every node are apart. -/
theorem childrenApart
    (formed : model.FormedBy nodes)
    (node : Node) :
    ChildrenApart model nodes node :=
  fun _ isChild _ => formed.apart isChild

end Model.FormedBy

end Flowmark
