import Flowmark.Proofs.Model.Interface

namespace Flowmark

/-!
# What the records of a program refer to

The numbers in a program lead back to the ports, the children and the channels of its node.
-/

/-- The end of a channel at which it joins a port of a direction from outside its program. -/
def Channel.outerEnd
    (channel : Channel) :
    Direction → PortId
  | .input => channel.sink
  | .output => channel.source

/-- Records numbered by their places are all found again by their numbers. -/
theorem Consecutive.filterMap_getElem?
    {α : Type}
    {items : List α}
    {id : α → Nat}
    (consecutive : Consecutive 0 (items.map id))
    {chosen : List α}
    (areItems : ∀ item ∈ chosen, item ∈ items) :
    (chosen.map id).filterMap (items[·]?) = chosen := by
  induction chosen with
  | nil => rfl
  | cons item chosen inductionHypothesis =>
      obtain ⟨isItem, restAreItems⟩ := List.forall_mem_cons.mp areItems
      rw [List.map_cons, List.filterMap_cons_some (consecutive.getElem?_of_mem isItem),
        inductionHypothesis restAreItems]

namespace Model.FormedBy

variable {model : Model} {nodes : List Node} {node : Node}

/-- Ports of the model are found again by their numbers. -/
theorem portsOf_map_id
    (formed : model.FormedBy nodes)
    {ports : List Port}
    (arePorts : ∀ port ∈ ports, port ∈ model.ports) :
    model.portsOf (ports.map Port.id) = ports :=
  formed.numbered.ports.filterMap_getElem? arePorts

/-- All outputs of a program are those of the interface of its node. -/
theorem allOutputs_eq
    (formed : model.FormedBy nodes)
    (isNode : node ∈ nodes) :
    node.program.allOutputs = node.wiring.interface.allOutputs.map Port.id := by
  have sound := formed.sound isNode
  rw [Program.allOutputs, sound.outputs, sound.results, Interface.allOutputs, List.map_append]

/-- The ports of a program are those of the interface of its node. -/
theorem ports_eq
    (formed : model.FormedBy nodes)
    (isNode : node ∈ nodes)
    (direction : Direction) :
    node.program.ports direction = (node.wiring.interface.ports direction).map Port.id := by
  cases direction with
  | input => exact (formed.sound isNode).inputs
  | output => exact formed.allOutputs_eq isNode

/-- The ports found for a program are those of the interface of its node. -/
theorem portsOf_ports
    (formed : model.FormedBy nodes)
    (isNode : node ∈ nodes)
    (direction : Direction) :
    model.portsOf (node.program.ports direction) = node.wiring.interface.ports direction := by
  rw [formed.ports_eq isNode]
  apply formed.portsOf_map_id
  intro port isShown
  exact ((formed.apart isNode).shown direction port isShown).1

/-- Whatever a node shows is a port of the model. -/
theorem mem_ports_of_interface
    (formed : model.FormedBy nodes)
    (isNode : node ∈ nodes) :
    ∀ port ∈ node.wiring.interface.all, port ∈ model.ports :=
  List.forall_mem_append.mpr
    ⟨fun port isInput => ((formed.apart isNode).shown .input port isInput).1,
      fun port isOutput => ((formed.apart isNode).shown .output port isOutput).1⟩

/-- Among own ports of a node followed by what its members show, the node owns the former. -/
theorem filter_owner_append
    (formed : model.FormedBy nodes)
    (isNode : node ∈ nodes)
    {own shown : List Port}
    (areOwn : ∀ port ∈ own, port ∈ node.ports)
    (areShown : ∀ port ∈ shown, ∃ member ∈ node.members, ∃ direction,
      port ∈ member.ports direction) :
    ((own ++ shown).filter fun port => port.owner = node.program.id) = own := by
  have ownKept : (own.filter fun port => port.owner = node.program.id) = own := by
    rw [List.filter_eq_self]
    intro port isOwn
    exact decide_eq_true ((formed.sound isNode).owners port (areOwn port isOwn))
  have shownDropped : (shown.filter fun port => port.owner = node.program.id) = [] := by
    rw [List.filter_eq_nil_iff]
    intro port isShown
    obtain ⟨member, isMember, direction, memberShows⟩ := areShown port isShown
    simpa using formed.owner_ne_of_shown isNode (formed.childrenApart node) isMember memberShows
  rw [List.filter_append, ownKept, shownDropped, List.append_nil]

/-- Of the inputs that a node shows it owns those that it declares. -/
theorem filter_owner_inputs
    (formed : model.FormedBy nodes)
    (isNode : node ∈ nodes) :
    (node.wiring.interface.inputs.filter fun port => port.owner = node.program.id) =
      node.own.inputs := by
  rw [Node.wiring, (formed.apart isNode).distinct.interface_inputs]
  apply formed.filter_owner_append isNode
  · exact fun port isOwn => (List.mem_filter.mp isOwn).1
  · intro port isShown
    obtain ⟨member, isMember, memberShows⟩ := List.mem_flatMap.mp (List.mem_filter.mp isShown).1
    exact ⟨member, isMember, .input, memberShows⟩

/-- Of the outputs that a node shows it owns those that it declares. -/
theorem filter_owner_outputs
    (formed : model.FormedBy nodes)
    (isNode : node ∈ nodes) :
    (node.wiring.interface.outputs.filter fun port => port.owner = node.program.id) =
      node.own.outputs := by
  rw [Node.wiring, (formed.apart isNode).distinct.interface_outputs]
  apply formed.filter_owner_append isNode
  · exact fun port isOwn => (List.mem_filter.mp isOwn).1
  · intro port isShown
    obtain ⟨member, isMember, memberShows⟩ := List.mem_flatMap.mp (List.mem_filter.mp isShown).1
    exact ⟨member, isMember, .output, memberShows⟩

/-- Of all outputs that a node shows it owns those that it declares. -/
theorem filter_owner_allOutputs
    (formed : model.FormedBy nodes)
    (isNode : node ∈ nodes) :
    (node.wiring.interface.allOutputs.filter fun port => port.owner = node.program.id) =
      node.own.allOutputs := by
  have resultsKept :
      (node.wiring.interface.results.filter fun port => port.owner = node.program.id) =
        node.own.results := by
    rw [Node.wiring, Wiring.interface_results, List.filter_eq_self]
    intro port isResult
    exact decide_eq_true ((formed.sound isNode).owners port (List.mem_filter.mp isResult).1)
  rw [Interface.allOutputs, List.filter_append, formed.filter_owner_outputs isNode, resultsKept]
  rfl

/-- The children of a program are the programs of nodes whose members it has. -/
theorem exists_children
    (formed : model.FormedBy nodes)
    (isNode : node ∈ nodes) :
    ∃ children : List Node,
      (∀ child ∈ children,
        child ∈ nodes ∧ child.program.parent = some node.program.id) ∧
        children.map Node.member = node.members ∧
        model.childrenOf node.program = children.map Node.program ∧
        (children.map Node.program).Nodup := by
  have collected : ∀ members : List Member, (∀ member ∈ members, member ∈ node.members) →
      ∃ children : List Node,
        (∀ child ∈ children,
          child ∈ nodes ∧ child.program.parent = some node.program.id) ∧
          children.map Node.member = members := by
    intro members areMembers
    induction members with
    | nil => exact ⟨[], by simp, rfl⟩
    | cons member members inductionHypothesis =>
        obtain ⟨isMember, restAreMembers⟩ := List.forall_mem_cons.mp areMembers
        obtain ⟨child, isChild, isParent, rfl⟩ := formed.child_of_member isNode isMember
        obtain ⟨children, areChildren, rfl⟩ := inductionHypothesis restAreMembers
        exact ⟨child :: children, List.forall_mem_cons.mpr ⟨⟨isChild, isParent⟩, areChildren⟩, rfl⟩
  obtain ⟨children, areChildren, shape⟩ := collected node.members fun _ isMember => isMember
  have sound := formed.sound isNode
  have ids : node.program.children = (children.map Node.program).map Program.id := by
    rw [sound.children, ← shape, List.map_map, List.map_map]
    rfl
  have found : model.childrenOf node.program = children.map Node.program := by
    rw [childrenOf, ids]
    apply formed.numbered.programs.filterMap_getElem?
    intro program isProgram
    obtain ⟨child, isChild, rfl⟩ := List.mem_map.mp isProgram
    exact formed.mem_programs_of_node (areChildren child isChild).1
  refine ⟨children, areChildren, shape, found, List.Nodup.of_map Program.id ?_⟩
  rw [← ids, sound.children]
  exact sound.ascending.imp fun before => Nat.ne_of_lt before

/-- Where the records of a sort are those of the nodes, and name their nodes, a node has the records
that name it. -/
theorem mem_of_node_iff
    (formed : model.FormedBy nodes)
    (isNode : node ∈ nodes)
    {α : Type}
    {records : List α}
    {scope : α → Nat}
    {of : Node → List α}
    (mem_iff : ∀ record, record ∈ records ↔ ∃ node ∈ nodes, record ∈ of node)
    (scopes : ∀ node, ∀ record ∈ of node, scope record = node.program.id)
    (record : α) :
    record ∈ of node ↔ record ∈ records ∧ scope record = node.program.id := by
  constructor
  · intro ofNode
    exact ⟨(mem_iff record).mpr ⟨node, isNode, ofNode⟩, scopes node record ofNode⟩
  · rintro ⟨isRecord, namesNode⟩
    obtain ⟨other, isOther, ofOther⟩ := (mem_iff record).mp isRecord
    rw [scopes other record ofOther] at namesNode
    rwa [← formed.node_ext isOther isNode namesNode]

/-- The channels of the model are those of its nodes. -/
theorem mem_channels_iff
    (formed : model.FormedBy nodes)
    (channel : Channel) :
    channel ∈ model.channels ↔ ∃ node ∈ nodes, channel ∈ node.channels := by
  obtain ⟨_, forest, _⟩ := formed
  exact forest.channels channel

/-- The channels filed with a program are those of its node. -/
theorem channelsOf_eq
    (formed : model.FormedBy nodes)
    (isNode : node ∈ nodes) :
    model.channelsOf node.program = node.channels := by
  rw [channelsOf, (formed.sound isNode).channels]
  apply formed.numbered.channels.filterMap_getElem?
  intro channel isChannel
  exact (formed.mem_channels_iff channel).mpr ⟨node, isNode, isChannel⟩

end Model.FormedBy

namespace Node

/-- The channels of a node name its program as their scope. -/
theorem scope_of_mem_channels
    {node : Node}
    {channel : Channel}
    (isChannel : channel ∈ node.channels) :
    channel.scope = node.program.id := by
  obtain ⟨_, _, rfl⟩ := List.mem_map.mp isChannel
  rfl

/-- The channels of a node join the ports of its flows, in order. -/
theorem map_ends_channels
    (node : Node) :
    node.channels.map (fun channel => (channel.source, channel.sink)) =
      node.wiring.flows.map fun flow => (flow.1.id, flow.2.id) := by
  simp only [channels, Wiring.channels, List.map_map, Function.comp_def]
  calc
    (node.wiring.flows.zipIdx.map fun entry => (entry.1.1.id, entry.1.2.id)) =
        (node.wiring.flows.zipIdx.map Prod.fst).map (fun flow => (flow.1.id, flow.2.id)) := by
      rw [List.map_map]
      rfl
    _ = node.wiring.flows.map fun flow => (flow.1.id, flow.2.id) := by rw [List.zipIdx_map_fst]

/-- A channel of a node joins the ports of a flow. -/
theorem flow_of_channel
    {node : Node}
    {channel : Channel}
    (isChannel : channel ∈ node.channels) :
    ∃ source sink,
      (source, sink) ∈ node.wiring.flows ∧
        channel.source = source.id ∧
        channel.sink = sink.id := by
  have ends : (channel.source, channel.sink) ∈
      node.wiring.flows.map fun flow => (flow.1.id, flow.2.id) := by
    rw [← map_ends_channels]
    exact List.mem_map.mpr ⟨channel, isChannel, rfl⟩
  obtain ⟨⟨source, sink⟩, isFlow, sameEnds⟩ := List.mem_map.mp ends
  obtain ⟨sameSource, sameSink⟩ := Prod.mk.inj sameEnds
  exact ⟨source, sink, isFlow, sameSource.symm, sameSink.symm⟩

/-- The outer ends of the channels of a node are those of its flows. -/
theorem map_outerEnd_channels
    (node : Node)
    (direction : Direction) :
    (node.channels.map fun channel => channel.outerEnd direction) =
      (node.wiring.outerEnds direction).map Port.id := by
  have ends := node.map_ends_channels
  cases direction with
  | input =>
      have sinks := congrArg (List.map Prod.snd) ends
      simpa [Channel.outerEnd, Wiring.outerEnds, Function.comp_def] using sinks
  | output =>
      have sources := congrArg (List.map Prod.fst) ends
      simpa [Channel.outerEnd, Wiring.outerEnds, Function.comp_def] using sources

end Node

end Flowmark
