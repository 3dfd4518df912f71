import Flowmark.Proofs.Model.Lookup

namespace Flowmark

/-!
# Channels of a scope

The channels of a scope join eligible producers and consumers, and they join as many consumers as
can be.  What no channel joins becomes part of the scope's interface.
-/

/-- A port in a scope with the child that shows it; a port of the scope itself has no child. -/
structure Terminal where
  port : Port
  child : Option Program
  deriving Repr, DecidableEq

namespace Terminal

/--
A producer may feed a consumer of the same binding.  They belong to different children, or one of
them to the scope itself, and not both to synthesized children.
-/
structure Eligible
    (producer consumer : Terminal) :
    Prop where
  sameBinding : producer.port.binding = consumer.port.binding
  apart : producer.child ≠ consumer.child
  notSynthesized : ¬ ∃ first second,
    producer.child = some first ∧
      consumer.child = some second ∧
      first.isSynthesized = true ∧
      second.isSynthesized = true

end Terminal

namespace Model

/-- The ports among given numbers that a program owns. -/
def ownedAmong
    (model : Model)
    (program : Program)
    (ids : List PortId) :
    List Port :=
  (model.portsOf ids).filter fun port => port.owner = program.id

/-- The ports of a direction that the children of a program show, child by child. -/
def shownByChildren
    (model : Model)
    (program : Program)
    (direction : Direction) :
    List Terminal :=
  (model.childrenOf program).flatMap fun child =>
    (model.portsOf (child.ports direction)).map fun port => ⟨port, some child⟩

/-- The producers of a scope: its own inputs, then the outputs of each child. -/
def producersOf
    (model : Model)
    (scope : Program) :
    List Terminal :=
  (model.ownedAmong scope scope.inputs).map (fun port => ⟨port, none⟩) ++
    model.shownByChildren scope .output

/-- The consumers of a scope: the inputs of each child, then its own outputs and results. -/
def consumersOf
    (model : Model)
    (scope : Program) :
    List Terminal :=
  model.shownByChildren scope .input ++
    (model.ownedAmong scope scope.allOutputs).map (fun port => ⟨port, none⟩)

/-- The channels of a scope are a maximal matching, and its interface is what they leave open. -/
structure Wired
    (model : Model)
    (scope : Program) :
    Prop where
  listed : ∀ channel,
    channel ∈ model.channelsOf scope ↔ channel ∈ model.channels ∧ channel.scope = scope.id
  eligible : ∀ channel ∈ model.channelsOf scope,
    ∃ producer ∈ model.producersOf scope, ∃ consumer ∈ model.consumersOf scope,
      channel.source = producer.port.id ∧
        channel.sink = consumer.port.id ∧
        producer.Eligible consumer
  once : ((model.channelsOf scope).map Channel.sink).Nodup
  fed : ∀ consumer ∈ model.consumersOf scope,
    consumer.port.id ∈ (model.channelsOf scope).map Channel.sink ↔
      ∃ producer ∈ model.producersOf scope, producer.Eligible consumer
  inputs : scope.inputs =
    (model.ownedAmong scope scope.inputs ++
      ((model.shownByChildren scope .input).map Terminal.port).filter fun port =>
        port.id ∉ (model.channelsOf scope).map Channel.sink).map Port.id
  outputs : scope.outputs =
    (model.ownedAmong scope scope.outputs ++
      ((model.shownByChildren scope .output).map Terminal.port).filter fun port =>
        port.id ∉ (model.channelsOf scope).map Channel.source).map Port.id
  owners : ∀ channel ∈ model.channelsOf scope,
    ∃ source sink,
      model.port? channel.source = some source ∧
        model.port? channel.sink = some sink ∧
        source.owner ≠ sink.owner

end Model

/-! Endpoints by position are terminals by child. -/

namespace Endpoint

/-- The terminal of an endpoint in a scope with given children. -/
def terminal
    (children : List Program)
    (endpoint : Endpoint) :
    Terminal where
  port := endpoint.port
  child :=
    match endpoint.side with
    | .own => none
    | .child position => children[position]?

/-- An endpoint belongs to the scope or to one of its children. -/
inductive Within
    (children : List Program)
    (endpoint : Endpoint) :
    Prop where
  | own
      (side : endpoint.side = .own)
      (notSynthesized : endpoint.synthesized = false)
  | child
      {position : Nat}
      {program : Program}
      (side : endpoint.side = .child position)
      (found : children[position]? = some program)
      (synthesized : endpoint.synthesized = program.isSynthesized)

/-- Between endpoints of a scope, being able to feed is eligibility. -/
theorem canFeed_iff_eligible
    {children : List Program}
    (distinct : children.Nodup)
    {producer consumer : Endpoint}
    (producerWithin : producer.Within children)
    (consumerWithin : consumer.Within children) :
    producer.canFeed consumer = true ↔
      (producer.terminal children).Eligible (consumer.terminal children) := by
  rw [canFeed_iff]
  cases producerWithin with
  | own producerSide producerPlain =>
      cases consumerWithin with
      | own consumerSide _ =>
          rw [producerSide, consumerSide]
          constructor
          · exact fun feeds => absurd rfl feeds.1
          · intro eligible
            exact absurd (by simp [terminal, producerSide, consumerSide]) eligible.apart
      | child consumerSide found _ =>
          constructor
          · rintro ⟨_, _, sameBinding⟩
            exact ⟨sameBinding, by simp [terminal, producerSide, consumerSide, found],
              by simp [terminal, producerSide]⟩
          · rintro ⟨sameBinding, _, _⟩
            exact ⟨by simp [producerSide, consumerSide], by simp [producerPlain], sameBinding⟩
  | child producerSide producerFound producerKind =>
      cases consumerWithin with
      | own consumerSide consumerPlain =>
          constructor
          · rintro ⟨_, _, sameBinding⟩
            exact ⟨sameBinding, by simp [terminal, producerSide, consumerSide, producerFound],
              by simp [terminal, consumerSide]⟩
          · rintro ⟨sameBinding, _, _⟩
            exact ⟨by simp [producerSide, consumerSide], by simp [consumerPlain], sameBinding⟩
      | child consumerSide consumerFound consumerKind =>
          rename_i producerPosition producerChild consumerPosition consumerChild
          -- Sides are positions, and positions tell distinct children apart.
          have sameChild : producerChild = consumerChild ↔ producerPosition = consumerPosition := by
            constructor
            · rintro rfl
              have inBounds := (List.getElem?_eq_some_iff.mp producerFound).1
              exact (List.getElem?_inj inBounds distinct).mp
                (producerFound.trans consumerFound.symm)
            · rintro rfl
              exact Option.some.inj (producerFound.symm.trans consumerFound)
          constructor
          · rintro ⟨otherSide, notBoth, sameBinding⟩
            refine ⟨sameBinding, ?_, ?_⟩
            · simpa [terminal, producerSide, consumerSide, producerFound, consumerFound, sameChild]
                using otherSide
            · simpa [terminal, producerSide, consumerSide, producerFound, consumerFound,
                producerKind, consumerKind] using notBoth
          · rintro ⟨sameBinding, otherChild, notBoth⟩
            refine ⟨?_, ?_, sameBinding⟩
            · simpa [terminal, producerSide, consumerSide, producerFound, consumerFound, sameChild]
                using otherChild
            · simpa [terminal, producerSide, consumerSide, producerFound, consumerFound,
                producerKind, consumerKind] using notBoth

end Endpoint

namespace Wiring

variable {children : List Node}

/-- An inner endpoint is a port that the child at its side shows. -/
theorem mem_innerEndpoints
    {ports : Member → List Port}
    {endpoint : Endpoint}
    (isInner : endpoint ∈ innerEndpoints ports (children.map Node.member)) :
    ∃ position child,
      children[position]? = some child ∧
        ∃ port ∈ ports child.member,
          endpoint = ⟨port, .child position, child.program.isSynthesized⟩ := by
  simp only [innerEndpoints, List.mem_flatMap, List.mem_map] at isInner
  obtain ⟨⟨member, position⟩, isEntry, port, isPort, rfl⟩ := isInner
  rw [List.mk_mem_zipIdx_iff_getElem?, List.getElem?_map, Option.map_eq_some_iff] at isEntry
  obtain ⟨child, found, rfl⟩ := isEntry
  exact ⟨position, child, found, port, isPort, rfl⟩

/-- Inner endpoints belong to the children of the scope. -/
theorem within_of_mem_innerEndpoints
    {ports : Member → List Port}
    {endpoint : Endpoint}
    (isInner : endpoint ∈ innerEndpoints ports (children.map Node.member)) :
    endpoint.Within (children.map Node.program) := by
  obtain ⟨position, child, found, port, _, rfl⟩ := mem_innerEndpoints isInner
  exact .child rfl (by rw [List.getElem?_map, found]; rfl) rfl

/-- Own endpoints belong to the scope. -/
theorem within_of_mem_ownEndpoints
    {programs : List Program}
    {ports : List Port}
    {endpoint : Endpoint}
    (isOwn : endpoint ∈ ownEndpoints ports) :
    endpoint.Within programs := by
  obtain ⟨port, _, rfl⟩ := List.mem_map.mp isOwn
  exact .own rfl rfl

/-- Producers belong to the scope or to its children. -/
theorem within_of_producer
    {own : Interface}
    {endpoint : Endpoint}
    (isProducer : endpoint ∈ producers own (children.map Node.member)) :
    endpoint.Within (children.map Node.program) := by
  rw [producers_eq] at isProducer
  rcases List.mem_append.mp isProducer with isOwn | isInner
  · exact within_of_mem_ownEndpoints isOwn
  · exact within_of_mem_innerEndpoints isInner

/-- Consumers belong to the scope or to its children. -/
theorem within_of_consumer
    {own : Interface}
    {endpoint : Endpoint}
    (isConsumer : endpoint ∈ consumers own (children.map Node.member)) :
    endpoint.Within (children.map Node.program) := by
  rw [consumers_eq] at isConsumer
  rcases List.mem_append.mp isConsumer with isInner | isOwn
  · exact within_of_mem_innerEndpoints isInner
  · exact within_of_mem_ownEndpoints isOwn

/-- The terminals of own endpoints have no child. -/
theorem map_terminal_ownEndpoints
    (programs : List Program)
    (ports : List Port) :
    (ownEndpoints ports).map (Endpoint.terminal programs) =
      ports.map fun port => ⟨port, none⟩ := by
  simp [ownEndpoints, Endpoint.terminal]

/-- The terminals of inner endpoints are the ports that the children show, child by child. -/
theorem map_terminal_innerEndpoints
    (ports : Member → List Port) :
    (innerEndpoints ports (children.map Node.member)).map
        (Endpoint.terminal (children.map Node.program)) =
      children.flatMap fun child =>
        (ports child.member).map fun port => ⟨port, some child.program⟩ := by
  rw [← flatMap_zipIdx, innerEndpoints, List.zipIdx_map, List.flatMap_map, List.map_flatMap]
  apply List.flatMap_congr
  rintro ⟨child, position⟩ isEntry
  have found := List.mk_mem_zipIdx_iff_getElem?.mp isEntry
  simp [Endpoint.terminal, found]

end Wiring

namespace Model.FormedBy

variable {model : Model} {nodes : List Node} {node : Node} {children : List Node}

/-- What the children of a program show is what its node sees of them, child by child. -/
theorem shownByChildren_eq
    (formed : model.FormedBy nodes)
    (areChildren : ∀ child ∈ children, child ∈ nodes)
    (found : model.childrenOf node.program = children.map Node.program)
    (direction : Direction) :
    model.shownByChildren node.program direction =
      children.flatMap fun child =>
        (child.member.ports direction).map fun port => ⟨port, some child.program⟩ := by
  rw [shownByChildren, found, List.flatMap_map]
  apply List.flatMap_congr
  intro child isChild
  rw [formed.portsOf_ports (areChildren child isChild), Node.ports_member]

/-- The ports that the children of a program show are those of the members of its node. -/
theorem map_port_shownByChildren
    (formed : model.FormedBy nodes)
    (areChildren : ∀ child ∈ children, child ∈ nodes)
    (shape : children.map Node.member = node.members)
    (found : model.childrenOf node.program = children.map Node.program)
    (direction : Direction) :
    (model.shownByChildren node.program direction).map Terminal.port =
      node.members.flatMap fun member => member.ports direction := by
  rw [formed.shownByChildren_eq areChildren found, ← shape, List.flatMap_map, List.map_flatMap]
  apply List.flatMap_congr
  intro child _
  simp [Function.comp_def]

/-- The own inputs of a program are those that its node declares. -/
theorem ownedAmong_inputs
    (formed : model.FormedBy nodes)
    (isNode : node ∈ nodes) :
    model.ownedAmong node.program node.program.inputs = node.own.inputs := by
  rw [ownedAmong, show node.program.inputs = node.program.ports .input from rfl,
    formed.portsOf_ports isNode]
  exact formed.filter_owner_inputs isNode

/-- The own outputs of a program are those that its node declares. -/
theorem ownedAmong_outputs
    (formed : model.FormedBy nodes)
    (isNode : node ∈ nodes) :
    model.ownedAmong node.program node.program.outputs = node.own.outputs := by
  have arePorts : ∀ port ∈ node.wiring.interface.outputs, port ∈ model.ports := by
    intro port isOutput
    exact ((formed.apart isNode).shown .output port (List.mem_append_left _ isOutput)).1
  rw [ownedAmong, (formed.sound isNode).outputs, formed.portsOf_map_id arePorts]
  exact formed.filter_owner_outputs isNode

/-- The producers of a program are those of its node. -/
theorem producersOf_eq
    (formed : model.FormedBy nodes)
    (isNode : node ∈ nodes)
    (areChildren : ∀ child ∈ children, child ∈ nodes)
    (shape : children.map Node.member = node.members)
    (found : model.childrenOf node.program = children.map Node.program) :
    model.producersOf node.program =
      (Wiring.producers node.own node.members).map
        (Endpoint.terminal (children.map Node.program)) := by
  rw [producersOf, formed.ownedAmong_inputs isNode, formed.shownByChildren_eq areChildren found,
    Wiring.producers_eq, List.map_append, Wiring.map_terminal_ownEndpoints, ← shape,
    Wiring.map_terminal_innerEndpoints]
  rfl

/-- The consumers of a program are those of its node. -/
theorem consumersOf_eq
    (formed : model.FormedBy nodes)
    (isNode : node ∈ nodes)
    (areChildren : ∀ child ∈ children, child ∈ nodes)
    (shape : children.map Node.member = node.members)
    (found : model.childrenOf node.program = children.map Node.program) :
    model.consumersOf node.program =
      (Wiring.consumers node.own node.members).map
        (Endpoint.terminal (children.map Node.program)) := by
  rw [consumersOf, ownedAmong, show node.program.allOutputs = node.program.ports .output from rfl,
    formed.portsOf_ports isNode, formed.shownByChildren_eq areChildren found, Wiring.consumers_eq,
    List.map_append, Wiring.map_terminal_ownEndpoints, ← shape,
    Wiring.map_terminal_innerEndpoints]
  exact congrArg (fun own => _ ++ List.map _ own) (formed.filter_owner_allOutputs isNode)

/-- A port of the model is told by its number. -/
theorem mem_map_id_iff
    (formed : model.FormedBy nodes)
    {ports : List Port}
    (arePorts : ∀ port ∈ ports, port ∈ model.ports)
    {port : Port}
    (isPort : port ∈ model.ports) :
    port.id ∈ ports.map Port.id ↔ port ∈ ports := by
  constructor
  · intro hasId
    obtain ⟨other, isOther, sameId⟩ := List.mem_map.mp hasId
    rwa [← formed.port_ext (arePorts other isOther) isPort sameId]
  · exact List.mem_map_of_mem

/-- The port of an endpoint is the scope's own, or it is shown by the child at its position. -/
inductive Origin
    (node : Node)
    (endpoint : Endpoint) :
    Prop where
  | own
      (side : endpoint.side = .own)
      (isPort : endpoint.port ∈ node.ports)
  | shown
      {position : Nat}
      {member : Member}
      {direction : Direction}
      (side : endpoint.side = .child position)
      (found : node.members[position]? = some member)
      (isShown : endpoint.port ∈ member.ports direction)

/-- An inner endpoint has its port from a member. -/
theorem origin_of_inner
    {direction : Direction}
    {endpoint : Endpoint}
    (isInner : endpoint ∈
      Wiring.innerEndpoints (fun member => member.ports direction) node.members) :
    Origin node endpoint := by
  simp only [Wiring.innerEndpoints, List.mem_flatMap, List.mem_map] at isInner
  obtain ⟨⟨member, position⟩, isEntry, port, isPort, rfl⟩ := isInner
  exact .shown rfl (List.mk_mem_zipIdx_iff_getElem?.mp isEntry) isPort

/-- An own endpoint has its port from the scope. -/
theorem origin_of_own
    (formed : model.FormedBy nodes)
    (isNode : node ∈ nodes)
    {direction : Direction}
    {endpoint : Endpoint}
    (isOwn : endpoint ∈ Wiring.ownEndpoints (node.own.ports direction)) :
    Origin node endpoint := by
  obtain ⟨port, isPort, rfl⟩ := List.mem_map.mp isOwn
  exact .own rfl ((Node.mem_own_ports_iff (formed.sound isNode) direction port).mp isPort).1

/-- The port of a producer is the scope's own or shown by a member. -/
theorem origin_of_producer
    (formed : model.FormedBy nodes)
    (isNode : node ∈ nodes)
    {endpoint : Endpoint}
    (isProducer : endpoint ∈ Wiring.producers node.own node.members) :
    Origin node endpoint := by
  rw [Wiring.producers_eq] at isProducer
  rcases List.mem_append.mp isProducer with isOwn | isInner
  · exact @origin_of_own _ _ _ formed isNode .input _ isOwn
  · exact @origin_of_inner _ .output _ isInner

/-- The port of a consumer is the scope's own or shown by a member. -/
theorem origin_of_consumer
    (formed : model.FormedBy nodes)
    (isNode : node ∈ nodes)
    {endpoint : Endpoint}
    (isConsumer : endpoint ∈ Wiring.consumers node.own node.members) :
    Origin node endpoint := by
  rw [Wiring.consumers_eq] at isConsumer
  rcases List.mem_append.mp isConsumer with isInner | isOwn
  · exact @origin_of_inner _ .input _ isInner
  · exact @origin_of_own _ _ _ formed isNode .output _ isOwn

/-- The endpoints of a scope have ports of the model. -/
theorem mem_ports_of_origin
    (formed : model.FormedBy nodes)
    (isNode : node ∈ nodes)
    {endpoint : Endpoint}
    (origin : Origin node endpoint) :
    endpoint.port ∈ model.ports := by
  cases origin with
  | own _ isPort => exact (formed.mem_ports_iff _).mpr ⟨node, isNode, isPort⟩
  | shown _ found isShown =>
      exact (formed.child_of_shown isNode (formed.childrenApart node)
        (List.mem_of_getElem? found) isShown).1

/-- Endpoints of different sides have ports of different owners. -/
theorem owner_ne_of_side_ne
    (formed : model.FormedBy nodes)
    (isNode : node ∈ nodes)
    {first second : Endpoint}
    (firstOrigin : Origin node first)
    (secondOrigin : Origin node second)
    (otherSide : first.side ≠ second.side) :
    first.port.owner ≠ second.port.owner := by
  have owners := (formed.sound isNode).owners
  have apart := formed.childrenApart node
  cases firstOrigin with
  | own firstSide firstPort =>
      cases secondOrigin with
      | own secondSide _ => exact absurd (firstSide.trans secondSide.symm) otherSide
      | shown _ found isShown =>
          rw [owners _ firstPort]
          exact (formed.owner_ne_of_shown isNode apart (List.mem_of_getElem? found) isShown).symm
  | shown firstSide firstFound firstShown =>
      cases secondOrigin with
      | own _ secondPort =>
          rw [owners _ secondPort]
          exact formed.owner_ne_of_shown isNode apart (List.mem_of_getElem? firstFound) firstShown
      | shown secondSide secondFound secondShown =>
          intro sameOwner
          have sameMember := formed.member_ext_of_shown isNode apart
            (List.mem_of_getElem? firstFound) (List.mem_of_getElem? secondFound)
            firstShown secondShown sameOwner
          subst sameMember
          have distinct : node.members.Nodup :=
            List.Nodup.of_map Member.program
              ((formed.sound isNode).ascending.imp fun before => Nat.ne_of_lt before)
          have samePosition :=
            (List.getElem?_inj (List.getElem?_eq_some_iff.mp firstFound).1 distinct).mp
              (firstFound.trans secondFound.symm)
          rw [firstSide, secondSide, samePosition] at otherSide
          exact otherSide rfl

/-- Both ends of a flow are ports of the model. -/
theorem mem_ports_of_flow
    (formed : model.FormedBy nodes)
    (isNode : node ∈ nodes)
    {source sink : Port}
    (isFlow : (source, sink) ∈ node.wiring.flows) :
    source ∈ model.ports ∧ sink ∈ model.ports := by
  obtain ⟨producer, isProducer, consumer, isConsumer, rfl, rfl, _⟩ :=
    (formed.apart isNode).distinct.flow isFlow
  exact ⟨formed.mem_ports_of_origin isNode (formed.origin_of_producer isNode isProducer),
    formed.mem_ports_of_origin isNode (formed.origin_of_consumer isNode isConsumer)⟩

/-- A channel of a scope joins a port from outside where a flow of its node does. -/
theorem mem_outerEnds_iff
    (formed : model.FormedBy nodes)
    (isNode : node ∈ nodes)
    {port : Port}
    (isPort : port ∈ model.ports)
    (direction : Direction) :
    (port.id ∈ (model.channelsOf node.program).map fun channel => channel.outerEnd direction) ↔
      port ∈ node.wiring.outerEnds direction := by
  rw [formed.channelsOf_eq isNode, node.map_outerEnd_channels]
  refine formed.mem_map_id_iff ?_ isPort
  intro other isEnd
  cases direction with
  | input =>
      obtain ⟨⟨source, sink⟩, isFlow, rfl⟩ := List.mem_map.mp isEnd
      exact (formed.mem_ports_of_flow isNode isFlow).2
  | output =>
      obtain ⟨⟨source, sink⟩, isFlow, rfl⟩ := List.mem_map.mp isEnd
      exact (formed.mem_ports_of_flow isNode isFlow).1

/-- The channels filed with a program are those that name it as their scope. -/
theorem mem_channelsOf_iff
    (formed : model.FormedBy nodes)
    (isNode : node ∈ nodes)
    (channel : Channel) :
    channel ∈ model.channelsOf node.program ↔
      channel ∈ model.channels ∧ channel.scope = node.program.id := by
  rw [formed.channelsOf_eq isNode]
  exact formed.mem_of_node_iff isNode formed.mem_channels_iff
    (fun _ _ => Node.scope_of_mem_channels) channel

/-- No port is the sink of two channels of one scope. -/
theorem nodup_sinks
    (formed : model.FormedBy nodes)
    (isNode : node ∈ nodes) :
    ((model.channelsOf node.program).map Channel.sink).Nodup := by
  rw [formed.channelsOf_eq isNode,
    show node.channels.map Channel.sink = (node.wiring.flows.map Prod.snd).map Port.id from
      node.map_outerEnd_channels .input]
  refine List.Nodup.map_on ?_ (formed.apart isNode).distinct.nodup_sinks
  intro first isFirst second isSecond sameId
  obtain ⟨⟨_, _⟩, firstFlow, rfl⟩ := List.mem_map.mp isFirst
  obtain ⟨⟨_, _⟩, secondFlow, rfl⟩ := List.mem_map.mp isSecond
  exact formed.port_ext (formed.mem_ports_of_flow isNode firstFlow).2
    (formed.mem_ports_of_flow isNode secondFlow).2 sameId

/-- A channel joins two ports of different owners. -/
theorem owners_of_channel
    (formed : model.FormedBy nodes)
    (isNode : node ∈ nodes)
    {channel : Channel}
    (isChannel : channel ∈ model.channelsOf node.program) :
    ∃ source sink,
      model.port? channel.source = some source ∧
        model.port? channel.sink = some sink ∧
        source.owner ≠ sink.owner := by
  rw [formed.channelsOf_eq isNode] at isChannel
  obtain ⟨source, sink, isFlow, sourceId, sinkId⟩ := Node.flow_of_channel isChannel
  obtain ⟨isSource, isSink⟩ := formed.mem_ports_of_flow isNode isFlow
  rw [sourceId, sinkId]
  refine ⟨source, sink, formed.port?_of_mem isSource, formed.port?_of_mem isSink, ?_⟩
  obtain ⟨producer, isProducer, consumer, isConsumer, rfl, rfl, feeds⟩ :=
    (formed.apart isNode).distinct.flow isFlow
  exact formed.owner_ne_of_side_ne isNode (formed.origin_of_producer isNode isProducer)
    (formed.origin_of_consumer isNode isConsumer)
    ((Endpoint.canFeed_iff producer consumer).mp feeds).1

/-- What the members of a node show are ports of the model. -/
theorem shown_mem_ports
    (formed : model.FormedBy nodes)
    (isNode : node ∈ nodes)
    {direction : Direction}
    {port : Port}
    (isShown : port ∈ node.members.flatMap fun member => member.ports direction) :
    port ∈ model.ports := by
  obtain ⟨member, isMember, memberShows⟩ := List.mem_flatMap.mp isShown
  exact (formed.child_of_shown isNode (formed.childrenApart node) isMember memberShows).1

/-- What the members of a node show is left open by its channels where its flows leave it open. -/
theorem filter_outerEnds
    (formed : model.FormedBy nodes)
    (isNode : node ∈ nodes)
    (direction : Direction) :
    ((node.members.flatMap fun member => member.ports direction).filter fun port =>
        port.id ∉ (model.channelsOf node.program).map fun channel => channel.outerEnd direction) =
      (node.members.flatMap fun member => member.ports direction).filter fun port =>
        port ∉ node.wiring.outerEnds direction := by
  apply List.filter_congr
  intro port isShown
  rw [decide_eq_decide]
  exact not_congr
    (formed.mem_outerEnds_iff isNode (formed.shown_mem_ports isNode isShown) direction)

/-- The inputs of a program are its own, then those of its children that no channel feeds. -/
theorem inputs_eq
    (formed : model.FormedBy nodes)
    (isNode : node ∈ nodes) :
    node.program.inputs =
      (model.ownedAmong node.program node.program.inputs ++
        ((model.shownByChildren node.program .input).map Terminal.port).filter fun port =>
          port.id ∉ (model.channelsOf node.program).map Channel.sink).map Port.id := by
  obtain ⟨children, areChildren, shape, found, _⟩ := formed.exists_children isNode
  rw [formed.ownedAmong_inputs isNode,
    formed.map_port_shownByChildren (fun child isChild => (areChildren child isChild).1) shape
      found,
    (formed.sound isNode).inputs, Node.wiring, (formed.apart isNode).distinct.interface_inputs]
  exact congrArg (fun left => (node.own.inputs ++ left).map Port.id)
    (formed.filter_outerEnds isNode .input).symm

/-- The outputs of a program are its own, then those of its children that feed no channel. -/
theorem outputs_eq
    (formed : model.FormedBy nodes)
    (isNode : node ∈ nodes) :
    node.program.outputs =
      (model.ownedAmong node.program node.program.outputs ++
        ((model.shownByChildren node.program .output).map Terminal.port).filter fun port =>
          port.id ∉ (model.channelsOf node.program).map Channel.source).map Port.id := by
  obtain ⟨children, areChildren, shape, found, _⟩ := formed.exists_children isNode
  rw [formed.ownedAmong_outputs isNode,
    formed.map_port_shownByChildren (fun child isChild => (areChildren child isChild).1) shape
      found,
    (formed.sound isNode).outputs, Node.wiring, (formed.apart isNode).distinct.interface_outputs]
  exact congrArg (fun left => (node.own.outputs ++ left).map Port.id)
    (formed.filter_outerEnds isNode .output).symm

/-- Every program of a formed model is wired. -/
theorem wired
    (formed : model.FormedBy nodes)
    (isNode : node ∈ nodes) :
    model.Wired node.program := by
  have distinct := (formed.apart isNode).distinct
  obtain ⟨children, areChildren, shape, found, distinctChildren⟩ := formed.exists_children isNode
  have areNodes := fun child isChild => (areChildren child isChild).1
  have producers := formed.producersOf_eq isNode areNodes shape found
  have consumers := formed.consumersOf_eq isNode areNodes shape found
  have eligible : ∀ producer ∈ Wiring.producers node.own node.members,
      ∀ consumer ∈ Wiring.consumers node.own node.members,
        producer.canFeed consumer = true ↔
          (producer.terminal (children.map Node.program)).Eligible
            (consumer.terminal (children.map Node.program)) := by
    rw [← shape]
    intro producer isProducer consumer isConsumer
    exact Endpoint.canFeed_iff_eligible distinctChildren
      (Wiring.within_of_producer isProducer) (Wiring.within_of_consumer isConsumer)
  exact
    { listed := formed.mem_channelsOf_iff isNode
      eligible := by
        intro channel isChannel
        rw [formed.channelsOf_eq isNode] at isChannel
        obtain ⟨source, sink, isFlow, sourceId, sinkId⟩ := Node.flow_of_channel isChannel
        obtain ⟨producer, isProducer, consumer, isConsumer, rfl, rfl, feeds⟩ :=
          distinct.flow isFlow
        rw [producers, consumers]
        exact ⟨_, List.mem_map_of_mem isProducer, _, List.mem_map_of_mem isConsumer, sourceId,
          sinkId, (eligible producer isProducer consumer isConsumer).mp feeds⟩
      once := formed.nodup_sinks isNode
      fed := by
        rw [producers, consumers]
        intro terminal isTerminal
        obtain ⟨consumer, isConsumer, rfl⟩ := List.mem_map.mp isTerminal
        have isPort := formed.mem_ports_of_origin isNode
          (formed.origin_of_consumer isNode isConsumer)
        have isSink := formed.mem_outerEnds_iff isNode isPort .input
        refine isSink.trans ((distinct.isFed_iff isConsumer).trans ?_)
        constructor
        · rintro ⟨producer, isProducer, feeds⟩
          exact ⟨_, List.mem_map_of_mem isProducer,
            (eligible producer isProducer consumer isConsumer).mp feeds⟩
        · rintro ⟨_, isTerminal, canBeFed⟩
          obtain ⟨producer, isProducer, rfl⟩ := List.mem_map.mp isTerminal
          exact ⟨producer, isProducer,
            (eligible producer isProducer consumer isConsumer).mpr canBeFed⟩
      inputs := formed.inputs_eq isNode
      outputs := formed.outputs_eq isNode
      owners := fun _ isChannel => formed.owners_of_channel isNode isChannel }

end Model.FormedBy

namespace Model

/--
In a model of a transcript, the channels of every program are a maximal matching of the producers
and consumers of its scope, and its interface has its own ports and what the channels leave open.
-/
theorem wired_of_ofTranscript
    {workflow : Option String}
    {transcript : Transcript}
    {model : Model}
    (accepted : ofTranscript workflow transcript = .ok model)
    {scope : Program}
    (isProgram : scope ∈ model.programs) :
    model.Wired scope := by
  obtain ⟨nodes, formed⟩ := formedBy_of_ofTranscript accepted
  rw [formed.programs] at isProgram
  obtain ⟨node, isNode, rfl⟩ := List.mem_map.mp isProgram
  exact formed.wired isNode

set_option maxRecDepth 4000 in
/-- A scope with a child and a call, in which one producer feeds two consumers. -/
theorem exists_accepted :
    ∃ transcript model,
      ofTranscript none transcript = .ok model ∧
        model.programs.map Program.name = ["a", "b", "f"] ∧
        model.channels.map (fun channel => (channel.source, channel.sink)) =
          [(0, 1), (2, 3), (2, 4)] := by
  let entry : Tag × String → Entry := fun (tag, name) =>
    ⟨default, tag, tag.keyword, name, .identifier, none, none⟩
  refine ⟨Transcript.ofEntries ([(.begin, "a"), (.input, "x"), (.begin, "b"), (.input, "x"),
    (.output, "y"), (.finish, "b"), (.input, "y"), (.call, "f"), (.output, "y"),
    (.finish, "a")].map entry), _, rfl, ?_, ?_⟩
  · rfl
  · decide +kernel

/-- The scope of that transcript is wired with three channels. -/
theorem wired_of_ofTranscript_nested :
    ∃ transcript model scope,
      ofTranscript none transcript = .ok model ∧
        scope ∈ model.programs ∧
        scope.name = "a" ∧
        model.channels.length = 3 ∧
        model.Wired scope := by
  obtain ⟨transcript, model, accepted, names, ends⟩ := exists_accepted
  obtain ⟨scope, programs, shape⟩ := List.exists_cons_of_ne_nil fun noProgram =>
    List.cons_ne_nil _ _ (names.symm.trans (congrArg (List.map Program.name) noProgram))
  have isProgram : scope ∈ model.programs := shape ▸ List.mem_cons_self
  rw [shape] at names
  have channelCount := congrArg List.length ends
  rw [List.length_map] at channelCount
  exact ⟨transcript, model, scope, accepted, isProgram, (List.cons.inj names).1, channelCount,
    wired_of_ofTranscript accepted isProgram⟩

end Model

end Flowmark
