import Flowmark.Proofs.Model.Reference
import Flowmark.Proofs.Model.Stock

namespace Flowmark

/-!
# Artifacts of a scope

The artifacts of a scope are told apart by their URIs and names, and together they have all ports
that its channels join or its interface shows.  On which of them a port is depends also on the URIs
of the ports that it is joined with.
-/

/-- All ports that a program shows. -/
def Program.interface
    (program : Program) :
    List PortId :=
  program.inputs ++ program.allOutputs

/-- A channel joins the ports at its ends. -/
def Channel.Joins
    (channel : Channel)
    (id : PortId) :
    Prop :=
  id = channel.source ∨ id = channel.sink

namespace Node

variable {node : Node}

/-- Artifacts of a node that are known alike are the same. -/
theorem artifact_ext
    {first second : Artifact}
    (isFirst : first ∈ node.artifacts)
    (isSecond : second ∈ node.artifacts)
    (sameKey : first.stock.key = second.stock.key) :
    first = second :=
  Wiring.artifact_ext ((mem_artifacts_iff first).mp isFirst).2
    ((mem_artifacts_iff second).mp isSecond).2 sameKey

/-- A channel of a node with the ports of its flow. -/
structure Carries
    (node : Node)
    (channel : Channel)
    (source sink : Port) :
    Prop where
  flow : (source, sink) ∈ node.wiring.flows
  sourceId : channel.source = source.id
  sinkId : channel.sink = sink.id
  artifact : channel.artifact =
    node.inside.artifacts + node.wiring.inventory.position (source, sink)

/-- Each channel of a node is that of a flow. -/
theorem exists_carries
    {channel : Channel}
    (isChannel : channel ∈ node.channels) :
    ∃ source sink, node.Carries channel source sink := by
  have listed : (channel.source, channel.sink, channel.artifact) ∈
      node.channels.map fun channel => (channel.source, channel.sink, channel.artifact) :=
    List.mem_map_of_mem isChannel
  rw [channels, Wiring.map_carried_channels] at listed
  obtain ⟨⟨source, sink⟩, isFlow, same⟩ := List.mem_map.mp listed
  simp only [Prod.mk.injEq] at same
  exact ⟨source, sink, isFlow, same.1.symm, same.2.1.symm, same.2.2.symm⟩

/-- Each flow of a node has a channel. -/
theorem exists_channel
    {source sink : Port}
    (isFlow : (source, sink) ∈ node.wiring.flows) :
    ∃ channel ∈ node.channels, node.Carries channel source sink := by
  have listed : (source.id, sink.id,
        node.inside.artifacts + node.wiring.inventory.position (source, sink)) ∈
      node.channels.map fun channel => (channel.source, channel.sink, channel.artifact) := by
    rw [channels, Wiring.map_carried_channels]
    exact List.mem_map_of_mem isFlow
  obtain ⟨channel, isChannel, same⟩ := List.mem_map.mp listed
  simp only [Prod.mk.injEq] at same
  exact ⟨channel, isChannel, isFlow, same.1, same.2.1, same.2.2⟩

end Node

namespace Model

/-- The URI of what flows through a channel: that of its source, else that of its sink. -/
def flowUri
    (model : Model)
    (channel : Channel) :
    Option String :=
  ((model.port? channel.source).bind Port.uri).or ((model.port? channel.sink).bind Port.uri)

/--
A port comes up in a scope under the URI of each channel that joins it, and under its own where the
scope shows it.
-/
inductive ComesUp
    (model : Model)
    (scope : Program)
    (port : Port) :
    Option String → Prop where
  | channel
      {channel : Channel}
      (isChannel : channel ∈ model.channelsOf scope)
      (joins : channel.Joins port.id) :
      ComesUp model scope port (model.flowUri channel)
  | interface
      (isShown : port.id ∈ scope.interface) :
      ComesUp model scope port port.uri

namespace FormedBy

variable {model : Model} {nodes : List Node} {node : Node}

/-- A program shows the ports of the interface of its node. -/
theorem interface_eq
    (formed : model.FormedBy nodes)
    (isNode : node ∈ nodes) :
    node.program.interface = node.wiring.interface.all.map Port.id := by
  rw [Program.interface, (formed.sound isNode).inputs, formed.allOutputs_eq isNode,
    ← List.map_append]
  rfl

/-- A port is shown by a program where it is in the interface of the node. -/
theorem mem_interface_iff
    (formed : model.FormedBy nodes)
    (isNode : node ∈ nodes)
    {port : Port}
    (isPort : port ∈ model.ports) :
    port.id ∈ node.program.interface ↔ port ∈ node.wiring.interface.all := by
  rw [formed.interface_eq isNode]
  exact formed.mem_map_id_iff (formed.mem_ports_of_interface isNode) isPort

section Carried

variable {channel : Channel} {source sink port : Port}

/-- The URI of what flows through a channel is that of its flow. -/
theorem flowUri_eq
    (formed : model.FormedBy nodes)
    (isNode : node ∈ nodes)
    (carries : node.Carries channel source sink) :
    model.flowUri channel = ArtifactKey.flowUri source sink := by
  obtain ⟨isSource, isSink⟩ := formed.mem_ports_of_flow isNode carries.flow
  rw [flowUri, carries.sourceId, carries.sinkId, formed.port?_of_mem isSource,
    formed.port?_of_mem isSink]
  rfl

/-- A channel is known by the binding of any port that it joins. -/
theorem ofFlow_eq
    (formed : model.FormedBy nodes)
    (isNode : node ∈ nodes)
    (carries : node.Carries channel source sink)
    (isPort : port ∈ model.ports)
    (joins : channel.Joins port.id) :
    ArtifactKey.ofFlow source sink = .known port.binding (model.flowUri channel) := by
  obtain ⟨isSource, isSink, sameBinding⟩ :=
    formed.ports_of_registered isNode (List.mem_append_left _ carries.flow)
  rw [ArtifactKey.ofFlow_eq_known, formed.flowUri_eq isNode carries]
  rcases joins with atSource | atSink
  · rw [formed.port_ext isPort isSource (atSource.trans carries.sourceId)]
  · rw [formed.port_ext isPort isSink (atSink.trans carries.sinkId), sameBinding]

/-- A channel carries the artifact that is known by its URI, else by the binding of its ports. -/
theorem carries_iff
    (formed : model.FormedBy nodes)
    (isNode : node ∈ nodes)
    (isChannel : channel ∈ node.channels)
    (isPort : port ∈ model.ports)
    (joins : channel.Joins port.id)
    {artifact : Artifact}
    (isArtifact : artifact ∈ node.artifacts) :
    channel.artifact = artifact.id ↔
      .known port.binding (model.flowUri channel) = artifact.stock.key := by
  obtain ⟨source, sink, carries⟩ := Node.exists_carries isChannel
  rw [carries.artifact, ← formed.ofFlow_eq isNode carries isPort joins]
  exact Wiring.position_eq_iff (List.mem_append_left _ carries.flow)
    ((Node.mem_artifacts_iff artifact).mp isArtifact).2

end Carried

/-- A port that is registered by itself is known by its own URI, else by its binding. -/
theorem ofFlow_self
    (port : Port) :
    ArtifactKey.ofFlow port port = .known port.binding port.uri := by
  rw [ArtifactKey.ofFlow_eq_known, ArtifactKey.flowUri, Option.or_self]

/-- What a port comes up under is registered. -/
theorem registered_of_comesUp
    (formed : model.FormedBy nodes)
    (isNode : node ∈ nodes)
    {port : Port}
    (isPort : port ∈ model.ports)
    {uri : Option String}
    (comesUp : model.ComesUp node.program port uri) :
    ∃ flow ∈ node.wiring.registered,
      ArtifactKey.ofFlow flow.1 flow.2 = .known port.binding uri ∧
        (port.id = flow.1.id ∨ port.id = flow.2.id) := by
  cases comesUp with
  | channel isChannel joins =>
      rw [formed.channelsOf_eq isNode] at isChannel
      obtain ⟨source, sink, carries⟩ := Node.exists_carries isChannel
      refine ⟨(source, sink), List.mem_append_left _ carries.flow,
        formed.ofFlow_eq isNode carries isPort joins, ?_⟩
      rw [← carries.sourceId, ← carries.sinkId]
      exact joins
  | interface isShown =>
      rw [formed.mem_interface_iff isNode isPort] at isShown
      exact ⟨(port, port), List.mem_append_right _ (List.mem_map_of_mem isShown),
        ofFlow_self port, Or.inl rfl⟩

/-- A port is on the artifacts that are known by what it comes up under. -/
theorem mem_ports_artifact_iff
    (formed : model.FormedBy nodes)
    (isNode : node ∈ nodes)
    {artifact : Artifact}
    (isArtifact : artifact ∈ node.artifacts)
    {port : Port}
    (isPort : port ∈ model.ports) :
    port.id ∈ artifact.ports ↔
      ∃ uri, model.ComesUp node.program port uri ∧
        .known port.binding uri = artifact.stock.key := by
  rw [Wiring.mem_ports_artifact_iff ((Node.mem_artifacts_iff artifact).mp isArtifact).2]
  constructor
  · rintro ⟨⟨source, sink⟩, isRegistered, sameKey, isEnd⟩
    rcases List.mem_append.mp isRegistered with isFlow | isShown
    · obtain ⟨channel, isChannel, carries⟩ := Node.exists_channel isFlow
      have joins : channel.Joins port.id := by
        rw [Channel.Joins, carries.sourceId, carries.sinkId]
        exact isEnd
      rw [formed.ofFlow_eq isNode carries isPort joins] at sameKey
      rw [← formed.channelsOf_eq isNode] at isChannel
      exact ⟨_, .channel isChannel joins, sameKey⟩
    · obtain ⟨shown, isInterface, same⟩ := List.mem_map.mp isShown
      obtain ⟨rfl, rfl⟩ := Prod.mk.inj same
      have samePort := formed.port_ext isPort
        (formed.mem_ports_of_interface isNode shown isInterface) (or_self_iff.mp isEnd)
      subst samePort
      exact ⟨_, .interface ((formed.mem_interface_iff isNode isPort).mpr isInterface),
        (ofFlow_self port).symm.trans sameKey⟩
  · rintro ⟨uri, comesUp, sameKey⟩
    obtain ⟨flow, isRegistered, known, isEnd⟩ := formed.registered_of_comesUp isNode isPort comesUp
    exact ⟨flow, isRegistered, known.trans sameKey, isEnd⟩

/-- A scope has an artifact for all that a port comes up under. -/
theorem exists_artifact_of_comesUp
    (formed : model.FormedBy nodes)
    (isNode : node ∈ nodes)
    (isScope : node.program.isInvocation = false)
    {port : Port}
    (isPort : port ∈ model.ports)
    {uri : Option String}
    (comesUp : model.ComesUp node.program port uri) :
    ∃ artifact ∈ node.artifacts, .known port.binding uri = artifact.stock.key := by
  obtain ⟨flow, isRegistered, known, _⟩ := formed.registered_of_comesUp isNode isPort comesUp
  obtain ⟨artifact, isArtifact, sameKey⟩ :=
    Wiring.exists_artifact isRegistered
  exact ⟨artifact, (Node.mem_artifacts_iff artifact).mpr ⟨isScope, isArtifact⟩,
    known.symm.trans sameKey.symm⟩

/-- The ends of channels are ports of the model. -/
theorem mem_channelsOf_ports
    (formed : model.FormedBy nodes)
    (isNode : node ∈ nodes)
    {channel : Channel}
    (isChannel : channel ∈ model.channelsOf node.program)
    {id : PortId}
    (joins : channel.Joins id) :
    ∃ port ∈ model.ports, port.id = id := by
  rw [formed.channelsOf_eq isNode] at isChannel
  obtain ⟨source, sink, carries⟩ := Node.exists_carries isChannel
  obtain ⟨isSource, isSink⟩ := formed.mem_ports_of_flow isNode carries.flow
  rcases joins with rfl | rfl
  · exact ⟨source, isSource, carries.sourceId.symm⟩
  · exact ⟨sink, isSink, carries.sinkId.symm⟩

/-- An artifact is named by the port at its front, and its URI is that of one of its ports. -/
theorem named_artifact
    (formed : model.FormedBy nodes)
    (isNode : node ∈ nodes)
    {artifact : Artifact}
    (isArtifact : artifact ∈ node.artifacts) :
    (∃ port, artifact.ports.head?.bind model.port? = some port ∧ port.binding = artifact.name) ∧
      ∀ place, artifact.uri = some place →
        ∃ id ∈ artifact.ports, (model.port? id).bind Port.uri = some place := by
  obtain ⟨madeBy, _⟩ :=
    Wiring.madeBy_of_artifact ((Node.mem_artifacts_iff artifact).mp isArtifact).2
  obtain ⟨⟨source, sink⟩, isOne, name, uri, front⟩ := madeBy.first
  have isRegistered := (List.mem_filter.mp isOne).1
  obtain ⟨isSource, isSink, _⟩ := formed.ports_of_registered isNode isRegistered
  refine ⟨⟨source, ?_, name.symm⟩, ?_⟩
  · rw [show artifact.ports.head? = some source.id from front]
    exact formed.port?_of_mem isSource
  · intro place isPlace
    rw [show artifact.uri = _ from uri, ArtifactKey.flowUri, Option.or_eq_some_iff] at isPlace
    rcases isPlace with atSource | ⟨_, atSink⟩
    · refine ⟨source.id, (madeBy.mem_ports _).mpr ⟨_, isOne, Or.inl rfl⟩, ?_⟩
      rw [formed.port?_of_mem isSource]
      exact atSource
    · refine ⟨sink.id, (madeBy.mem_ports _).mpr ⟨_, isOne, Or.inr rfl⟩, ?_⟩
      rw [formed.port?_of_mem isSink]
      exact atSink

end FormedBy

/-- An artifact has ports of a scope with one URI or, without any URI, with one binding. -/
structure Gathers
    (model : Model)
    (scope : Program)
    (artifact : Artifact) :
    Prop where
  nodup : artifact.ports.Nodup
  /-- The port at the front gives the name. -/
  named : ∃ port,
    artifact.ports.head?.bind model.port? = some port ∧ port.binding = artifact.name
  /-- Its ports come from channels that carry it and from the interface. -/
  used : ∀ id ∈ artifact.ports,
    (∃ channel ∈ model.channelsOf scope,
      channel.artifact = artifact.id ∧ channel.Joins id) ∨
        id ∈ scope.interface
  placed : ∀ place, artifact.uri = some place →
    ∃ id ∈ artifact.ports, (model.port? id).bind Port.uri = some place
  bare : artifact.uri = none → ∀ id ∈ artifact.ports,
    ∃ port, model.port? id = some port ∧ port.uri = none ∧ port.binding = artifact.name

/-- The artifacts of a scope have identities of their own and all ports that it uses. -/
structure Inventoried
    (model : Model)
    (scope : Program) :
    Prop where
  listed : ∀ artifact,
    artifact ∈ model.artifactsOf scope ↔
      artifact ∈ model.artifacts ∧ artifact.scope = scope.id
  nodup : (model.artifactsOf scope).Nodup
  /-- A URI, or a name without URI, is that of one artifact. -/
  distinct : ∀ first ∈ model.artifactsOf scope, ∀ second ∈ model.artifactsOf scope,
    first.uri = second.uri → (first.uri = none → first.name = second.name) → first = second
  carried : ∀ channel ∈ model.channelsOf scope, ∃ artifact ∈ model.artifactsOf scope,
    artifact.id = channel.artifact ∧
      channel.source ∈ artifact.ports ∧
      channel.sink ∈ artifact.ports
  shown : ∀ id ∈ scope.interface, ∃ port, model.port? id = some port ∧
    ∃ artifact ∈ model.artifactsOf scope,
      id ∈ artifact.ports ∧
        artifact.uri = port.uri ∧
        (port.uri = none → artifact.name = port.binding)
  gathers : ∀ artifact ∈ model.artifactsOf scope, model.Gathers scope artifact

namespace FormedBy

variable {model : Model} {nodes : List Node} {node : Node}

/-- The artifacts filed with a program are those of its node. -/
theorem artifactsOf_eq
    (formed : model.FormedBy nodes)
    (numbered : Consecutive 0 (model.artifacts.map Artifact.id))
    (isNode : node ∈ nodes) :
    model.artifactsOf node.program = node.artifacts := by
  rw [artifactsOf, (formed.sound isNode).artifacts]
  apply numbered.filterMap_getElem?
  intro artifact isArtifact
  exact (formed.mem_artifacts_iff artifact).mpr ⟨node, isNode, isArtifact⟩

/-- What a port comes up under without URI is without URI at all ends. -/
theorem uri_of_comesUp
    (formed : model.FormedBy nodes)
    {port : Port}
    (isPort : port ∈ model.ports)
    {uri : Option String}
    (comesUp : model.ComesUp node.program port uri)
    (noUri : uri = none) :
    port.uri = none := by
  cases comesUp with
  | interface => exact noUri
  | @channel channel isChannel joins =>
      rw [flowUri, Option.or_eq_none_iff] at noUri
      have ofEnd :
          ∀ id, port.id = id → (model.port? id).bind Port.uri = none → port.uri = none := by
        rintro id rfl noPlace
        rwa [formed.port?_of_mem isPort] at noPlace
      rcases joins with atSource | atSink
      · exact ofEnd _ atSource noUri.1
      · exact ofEnd _ atSink noUri.2

/-- Every artifact of a node gathers ports of its scope. -/
theorem gathers
    (formed : model.FormedBy nodes)
    (isNode : node ∈ nodes)
    {artifact : Artifact}
    (isArtifact : artifact ∈ node.artifacts) :
    model.Gathers node.program artifact where
  nodup :=
    (Wiring.madeBy_of_artifact ((Node.mem_artifacts_iff artifact).mp isArtifact).2).1.nodup
  named := (formed.named_artifact isNode isArtifact).1
  used := by
    intro id isOn
    obtain ⟨port, isPort, rfl⟩ := formed.exists_port_of_artifact isNode isArtifact isOn
    obtain ⟨uri, comesUp, sameKey⟩ :=
      (formed.mem_ports_artifact_iff isNode isArtifact isPort).mp isOn
    cases comesUp with
    | interface isShown => exact Or.inr isShown
    | @channel channel isChannel joins =>
        have ofNode := formed.channelsOf_eq isNode ▸ isChannel
        exact Or.inl ⟨channel, isChannel,
          (formed.carries_iff isNode ofNode isPort joins isArtifact).mpr sameKey, joins⟩
  placed := (formed.named_artifact isNode isArtifact).2
  bare := by
    intro noUri id isOn
    obtain ⟨port, isPort, rfl⟩ := formed.exists_port_of_artifact isNode isArtifact isOn
    obtain ⟨uri, comesUp, sameKey⟩ :=
      (formed.mem_ports_artifact_iff isNode isArtifact isPort).mp isOn
    obtain ⟨sameUri, sameName⟩ := (ArtifactKey.known_eq_iff ..).mp sameKey
    have bare : uri = none := sameUri.trans noUri
    exact ⟨port, formed.port?_of_mem isPort, formed.uri_of_comesUp isPort comesUp bare,
      sameName bare⟩

/-- Both ends of a channel are on the artifact that it carries. -/
theorem joined_mem_ports
    (formed : model.FormedBy nodes)
    (isNode : node ∈ nodes)
    {channel : Channel}
    (isChannel : channel ∈ model.channelsOf node.program)
    {artifact : Artifact}
    (isArtifact : artifact ∈ node.artifacts)
    (carries : channel.artifact = artifact.id)
    (id : PortId)
    (joins : channel.Joins id) :
    id ∈ artifact.ports := by
  obtain ⟨port, isPort, rfl⟩ := formed.mem_channelsOf_ports isNode isChannel joins
  have ofNode := formed.channelsOf_eq isNode ▸ isChannel
  have sameKey := (formed.carries_iff isNode ofNode isPort joins isArtifact).mp carries
  exact (formed.mem_ports_artifact_iff isNode isArtifact isPort).mpr
    ⟨_, .channel isChannel joins, sameKey⟩

/-- A port that a scope shows is on the artifact that is known by its own URI and binding. -/
theorem exists_artifact_of_shown
    (formed : model.FormedBy nodes)
    (isNode : node ∈ nodes)
    (isScope : node.program.isInvocation = false)
    {id : PortId}
    (isShown : id ∈ node.program.interface) :
    ∃ port, model.port? id = some port ∧
      ∃ artifact ∈ node.artifacts,
        id ∈ artifact.ports ∧
          artifact.uri = port.uri ∧
          (port.uri = none → artifact.name = port.binding) := by
  obtain ⟨port, isInterface, rfl⟩ := List.mem_map.mp (formed.interface_eq isNode ▸ isShown)
  have isPort := formed.mem_ports_of_interface isNode port isInterface
  have comesUp : model.ComesUp node.program port port.uri := .interface isShown
  obtain ⟨artifact, isArtifact, sameKey⟩ :=
    formed.exists_artifact_of_comesUp isNode isScope isPort comesUp
  obtain ⟨sameUri, sameName⟩ := (ArtifactKey.known_eq_iff ..).mp sameKey
  exact ⟨port, formed.port?_of_mem isPort, artifact, isArtifact,
    (formed.mem_ports_artifact_iff isNode isArtifact isPort).mpr ⟨_, comesUp, sameKey⟩,
    sameUri.symm, fun noUri => (sameName noUri).symm⟩

/-- Every program that is no call is inventoried. -/
theorem inventoried
    (formed : model.FormedBy nodes)
    (numbered : Consecutive 0 (model.artifacts.map Artifact.id))
    (isNode : node ∈ nodes)
    (isScope : node.program.isInvocation = false) :
    model.Inventoried node.program := by
  have artifacts := formed.artifactsOf_eq numbered isNode
  exact
    { listed := by
        rw [artifacts]
        exact formed.mem_of_node_iff isNode formed.mem_artifacts_iff
          fun _ _ => Node.scope_of_mem_artifacts
      nodup := by
        rw [artifacts]
        exact List.Nodup.of_map Artifact.id
          (node.ascending_artifacts.imp fun before => Nat.ne_of_lt before)
      distinct := by
        rw [artifacts]
        intro first isFirst second isSecond sameUri sameName
        exact Node.artifact_ext isFirst isSecond
          ((ArtifactKey.known_eq_iff ..).mpr ⟨sameUri, sameName⟩)
      carried := by
        rw [artifacts]
        intro channel isChannel
        have ofNode := formed.channelsOf_eq isNode ▸ isChannel
        obtain ⟨artifact, isArtifact, carried⟩ := (formed.sound isNode).carried channel ofNode
        have joined := @joined_mem_ports _ _ _ formed isNode _ isChannel _ isArtifact carried.symm
        exact ⟨artifact, isArtifact, carried, joined _ (Or.inl rfl), joined _ (Or.inr rfl)⟩
      shown := by
        rw [artifacts]
        exact fun _ isShown => formed.exists_artifact_of_shown isNode isScope isShown
      gathers := by
        rw [artifacts]
        exact fun _ isArtifact => formed.gathers isNode isArtifact }

end FormedBy

/--
In a model of a transcript, the artifacts of every scope are told apart by their URIs and names, and
together they have the ends of all its channels and all ports of its interface.
-/
theorem inventoried_of_ofTranscript
    {workflow : Option String}
    {transcript : Transcript}
    {model : Model}
    (accepted : ofTranscript workflow transcript = .ok model)
    {scope : Program}
    (isProgram : scope ∈ model.programs)
    (isScope : scope.kind ≠ .invocation) :
    model.Inventoried scope := by
  obtain ⟨nodes, formed⟩ := formedBy_of_ofTranscript accepted
  obtain ⟨node, isNode, rfl⟩ := formed.node_of_mem isProgram
  exact formed.inventoried (allNumbered_of_ofTranscript accepted).artifacts isNode
    (decide_eq_false isScope)

/-- A scope with an input that is joined with an input of its child, which alone has a URI. -/
theorem exists_accepted_halfPlaced :
    ∃ transcript model,
      ofTranscript none transcript = .ok model ∧
        (model.program? 0).map (fun scope =>
            (scope.isInvocation,
              (model.artifactsOf scope).map fun artifact => (artifact.uri, artifact.ports))) =
          some (false, [(some "u", [0, 1]), (none, [0])]) := by
  let entry : Tag × String × Option MarkId → Entry := fun (tag, name, qualifies) =>
    ⟨default, tag, tag.keyword, name, .identifier, none, qualifies⟩
  refine ⟨Transcript.ofEntries ([(.begin, "s", none), (.input, "x", none), (.begin, "c", none),
    (.input, "x", none), (.uri, "u", some 4), (.finish, "c", none),
    (.finish, "s", none)].map entry), exists_of_toOption_map ?_⟩
  decide +kernel

/-- The artifacts of that scope, one with a URI and one without. -/
theorem inventoried_of_ofTranscript_halfPlaced :
    ∃ transcript model scope,
      ofTranscript none transcript = .ok model ∧
        scope ∈ model.programs ∧
        scope.kind ≠ .invocation ∧
        (model.artifactsOf scope).map Artifact.uri = [some "u", none] ∧
        model.Inventoried scope := by
  obtain ⟨transcript, model, accepted, observed⟩ := exists_accepted_halfPlaced
  obtain ⟨scope, found, seen⟩ := Option.map_eq_some_iff.mp observed
  obtain ⟨isScope, artifacts⟩ := Prod.mk.inj seen
  have isProgram := List.mem_of_getElem? found
  have uris := congrArg (List.map Prod.fst) artifacts
  rw [List.map_map] at uris
  have notCall : scope.kind ≠ .invocation := of_decide_eq_false isScope
  exact ⟨transcript, model, scope, accepted, isProgram, notCall, uris,
    inventoried_of_ofTranscript accepted isProgram notCall⟩

end Model

end Flowmark
