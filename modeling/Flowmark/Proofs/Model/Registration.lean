import Flowmark.Proofs.Model.Artifacts

namespace Flowmark

/-!
# Registration of ports

A port is registered for every channel that joins it and once more where the scope shows it.  Only
the URIs decide whether these registrations are on one artifact: a port whose own URI differs from
that of what flows through it is on two.
-/

namespace Model

/-- A port is registered on an artifact for each URI under which it comes up. -/
structure RegistersByUri
    (model : Model)
    (scope : Program) :
    Prop where
  registered : ∀ port ∈ model.ports, ∀ artifact ∈ model.artifactsOf scope,
    port.id ∈ artifact.ports ↔
      model.ComesUp scope port artifact.uri ∧
        (artifact.uri = none → artifact.name = port.binding)
  /-- A port is on one artifact at most where it comes up under one URI at most. -/
  once : ∀ port ∈ model.ports,
    (∀ first ∈ model.artifactsOf scope, ∀ second ∈ model.artifactsOf scope,
        port.id ∈ first.ports → port.id ∈ second.ports → first = second) ↔
      ∀ first second,
        model.ComesUp scope port first → model.ComesUp scope port second → first = second
  /-- Channels that meet carry one artifact where they have one URI. -/
  meeting : ∀ first ∈ model.channelsOf scope, ∀ second ∈ model.channelsOf scope,
    ∀ id, first.Joins id → second.Joins id →
      (first.artifact = second.artifact ↔ model.flowUri first = model.flowUri second)
  /-- A port that a channel joins, of the interface or not, is only on what the channel carries
  where it comes up under no other URI than that of the channel. -/
  only : ∀ port ∈ model.ports,
    ∀ channel ∈ model.channelsOf scope, channel.Joins port.id →
      ((∀ artifact ∈ model.artifactsOf scope,
          port.id ∈ artifact.ports → artifact.id = channel.artifact) ↔
        ∀ uri, model.ComesUp scope port uri → uri = model.flowUri channel)

namespace FormedBy

variable {model : Model} {nodes : List Node} {node : Node}

/-- Only scopes have channels. -/
theorem isScope_of_channel
    (formed : model.FormedBy nodes)
    (isNode : node ∈ nodes)
    {channel : Channel}
    (isChannel : channel ∈ node.channels) :
    node.program.isInvocation = false := by
  obtain ⟨artifact, isArtifact, _⟩ := (formed.sound isNode).carried channel isChannel
  exact ((Node.mem_artifacts_iff artifact).mp isArtifact).1

/-- With one name, what is known differs as the URI does. -/
theorem known_inj
    {port : Port}
    {first second : Option String} :
    ArtifactKey.known port.binding first = .known port.binding second ↔ first = second := by
  rw [ArtifactKey.known_eq_iff]
  exact and_iff_left fun _ => rfl

/-- A port is on an artifact exactly where it comes up under its URI and, without one, its name. -/
theorem registered_iff
    (formed : model.FormedBy nodes)
    (isNode : node ∈ nodes)
    {port : Port}
    (isPort : port ∈ model.ports)
    {artifact : Artifact}
    (isArtifact : artifact ∈ node.artifacts) :
    port.id ∈ artifact.ports ↔
      model.ComesUp node.program port artifact.uri ∧
        (artifact.uri = none → artifact.name = port.binding) := by
  rw [formed.mem_ports_artifact_iff isNode isArtifact isPort]
  constructor
  · rintro ⟨uri, comesUp, sameKey⟩
    obtain ⟨sameUri, sameName⟩ := (ArtifactKey.known_eq_iff ..).mp sameKey
    subst sameUri
    exact ⟨comesUp, fun noUri => (sameName noUri).symm⟩
  · rintro ⟨comesUp, sameName⟩
    exact ⟨artifact.uri, comesUp,
      (ArtifactKey.known_eq_iff ..).mpr ⟨rfl, fun noUri => (sameName noUri).symm⟩⟩

/-- A call comes up with its ports under nothing but their own URIs. -/
theorem uri_eq_of_comesUp
    (formed : model.FormedBy nodes)
    (isNode : node ∈ nodes)
    (isCall : node.program.isInvocation = true)
    {port : Port}
    {uri : Option String}
    (comesUp : model.ComesUp node.program port uri) :
    uri = port.uri := by
  cases comesUp with
  | interface => rfl
  | channel isChannel =>
      have isScope := formed.isScope_of_channel isNode (formed.channelsOf_eq isNode ▸ isChannel)
      rw [isCall] at isScope
      cases isScope

/-- A port is on one artifact at most exactly where it comes up under one URI. -/
theorem once_iff
    (formed : model.FormedBy nodes)
    (isNode : node ∈ nodes)
    {port : Port}
    (isPort : port ∈ model.ports) :
    (∀ first ∈ node.artifacts, ∀ second ∈ node.artifacts,
        port.id ∈ first.ports → port.id ∈ second.ports → first = second) ↔
      ∀ first second, model.ComesUp node.program port first →
        model.ComesUp node.program port second → first = second := by
  constructor
  · intro once first second comesFirst comesSecond
    cases isCall : node.program.isInvocation with
    | true =>
        rw [formed.uri_eq_of_comesUp isNode isCall comesFirst,
          formed.uri_eq_of_comesUp isNode isCall comesSecond]
    | false =>
        obtain ⟨firstArtifact, isFirst, firstKey⟩ :=
          formed.exists_artifact_of_comesUp isNode isCall isPort comesFirst
        obtain ⟨secondArtifact, isSecond, secondKey⟩ :=
          formed.exists_artifact_of_comesUp isNode isCall isPort comesSecond
        have same := once firstArtifact isFirst secondArtifact isSecond
          ((formed.mem_ports_artifact_iff isNode isFirst isPort).mpr ⟨first, comesFirst, firstKey⟩)
          ((formed.mem_ports_artifact_iff isNode isSecond isPort).mpr
            ⟨second, comesSecond, secondKey⟩)
        rw [← known_inj, firstKey, secondKey, same]
  · intro once first isFirst second isSecond onFirst onSecond
    obtain ⟨firstUri, comesFirst, firstKey⟩ :=
      (formed.mem_ports_artifact_iff isNode isFirst isPort).mp onFirst
    obtain ⟨secondUri, comesSecond, secondKey⟩ :=
      (formed.mem_ports_artifact_iff isNode isSecond isPort).mp onSecond
    apply Node.artifact_ext isFirst isSecond
    rw [← firstKey, ← secondKey, once firstUri secondUri comesFirst comesSecond]

/-- Two channels that meet in a port carry one artifact exactly where their URIs agree. -/
theorem meeting_iff
    (formed : model.FormedBy nodes)
    (isNode : node ∈ nodes)
    {first second : Channel}
    (isFirst : first ∈ node.channels)
    (isSecond : second ∈ node.channels)
    {port : Port}
    (isPort : port ∈ model.ports)
    (joinsFirst : first.Joins port.id)
    (joinsSecond : second.Joins port.id) :
    first.artifact = second.artifact ↔ model.flowUri first = model.flowUri second := by
  obtain ⟨artifact, isArtifact, carried⟩ := (formed.sound isNode).carried first isFirst
  have firstKey := (formed.carries_iff isNode isFirst isPort joinsFirst isArtifact).mp carried.symm
  rw [← carried, eq_comm, formed.carries_iff isNode isSecond isPort joinsSecond isArtifact,
    ← firstKey, known_inj, eq_comm]

/-- A port is on the artifact of its channel only where it comes up under no other URI. -/
theorem only_iff
    (formed : model.FormedBy nodes)
    (isNode : node ∈ nodes)
    {channel : Channel}
    (isChannel : channel ∈ node.channels)
    {port : Port}
    (isPort : port ∈ model.ports)
    (joins : channel.Joins port.id) :
    (∀ artifact ∈ node.artifacts,
        port.id ∈ artifact.ports → artifact.id = channel.artifact) ↔
      ∀ uri, model.ComesUp node.program port uri → uri = model.flowUri channel := by
  have carries : ∀ {artifact}, artifact ∈ node.artifacts →
      (artifact.id = channel.artifact ↔
        ArtifactKey.known port.binding (model.flowUri channel) = artifact.stock.key) :=
    fun isArtifact => eq_comm.trans (formed.carries_iff isNode isChannel isPort joins isArtifact)
  constructor
  · intro only uri comesUp
    obtain ⟨artifact, isArtifact, sameKey⟩ := formed.exists_artifact_of_comesUp isNode
      (formed.isScope_of_channel isNode isChannel) isPort comesUp
    have isOn :=
      (formed.mem_ports_artifact_iff isNode isArtifact isPort).mpr ⟨uri, comesUp, sameKey⟩
    have channelKey := (carries isArtifact).mp (only artifact isArtifact isOn)
    exact known_inj.mp (sameKey.trans channelKey.symm)
  · intro only artifact isArtifact isOn
    obtain ⟨uri, comesUp, sameKey⟩ :=
      (formed.mem_ports_artifact_iff isNode isArtifact isPort).mp isOn
    rw [only uri comesUp] at sameKey
    exact (carries isArtifact).mpr sameKey

/-- Every program of a formed model registers ports by URIs. -/
theorem registersByUri
    (formed : model.FormedBy nodes)
    (numbered : Consecutive 0 (model.artifacts.map Artifact.id))
    (isNode : node ∈ nodes) :
    model.RegistersByUri node.program := by
  have artifacts := formed.artifactsOf_eq numbered isNode
  have ofNode : ∀ {channel}, channel ∈ model.channelsOf node.program → channel ∈ node.channels :=
    fun isChannel => formed.channelsOf_eq isNode ▸ isChannel
  exact
    { registered := by
        rw [artifacts]
        exact fun port isPort artifact isArtifact => formed.registered_iff isNode isPort isArtifact
      once := by
        rw [artifacts]
        exact fun port isPort => formed.once_iff isNode isPort
      meeting := by
        intro first isFirst second isSecond id joinsFirst joinsSecond
        obtain ⟨port, isPort, rfl⟩ := formed.mem_channelsOf_ports isNode isFirst joinsFirst
        exact formed.meeting_iff isNode (ofNode isFirst) (ofNode isSecond) isPort joinsFirst
          joinsSecond
      only := by
        rw [artifacts]
        intro port isPort channel isChannel joins
        exact formed.only_iff isNode (ofNode isChannel) isPort joins }

end FormedBy

/--
In a model of a transcript, a port is on one artifact of a program exactly where all channels that
join it have one URI and, if the program shows the port, this is the port's own.
-/
theorem registersByUri_of_ofTranscript
    {workflow : Option String}
    {transcript : Transcript}
    {model : Model}
    (accepted : ofTranscript workflow transcript = .ok model)
    {scope : Program}
    (isProgram : scope ∈ model.programs) :
    model.RegistersByUri scope := by
  obtain ⟨nodes, formed⟩ := formedBy_of_ofTranscript accepted
  obtain ⟨node, isNode, rfl⟩ := formed.node_of_mem isProgram
  exact formed.registersByUri (allNumbered_of_ofTranscript accepted).artifacts isNode

/-- The input of that scope is on two artifacts. -/
theorem registersByUri_of_ofTranscript_halfPlaced :
    ∃ transcript model scope,
      ofTranscript none transcript = .ok model ∧
        scope ∈ model.programs ∧
        (model.artifactsOf scope).map (fun artifact => (artifact.uri, artifact.ports)) =
          [(some "u", [0, 1]), (none, [0])] ∧
        model.RegistersByUri scope := by
  obtain ⟨transcript, model, accepted, observed⟩ := exists_accepted_halfPlaced
  obtain ⟨scope, found, seen⟩ := Option.map_eq_some_iff.mp observed
  have isProgram := List.mem_of_getElem? found
  exact ⟨transcript, model, scope, accepted, isProgram, (Prod.mk.inj seen).2,
    registersByUri_of_ofTranscript accepted isProgram⟩

/-- The port of a scope is on two artifacts where only the port that it feeds has a URI. -/
theorem not_on_one_artifact :
    ¬ ∀ workflow transcript model,
      ofTranscript workflow transcript = .ok model →
        ∀ scope ∈ model.programs, ∀ id,
          ∀ first ∈ model.artifactsOf scope, ∀ second ∈ model.artifactsOf scope,
            id ∈ first.ports → id ∈ second.ports → first = second := by
  intro onOne
  obtain ⟨transcript, model, accepted, observed⟩ := exists_accepted_halfPlaced
  obtain ⟨scope, found, seen⟩ := Option.map_eq_some_iff.mp observed
  have isProgram := List.mem_of_getElem? found
  have seenArtifacts := (Prod.mk.inj seen).2
  obtain ⟨placed, others, shape, placedSeen, othersSeen⟩ := List.map_eq_cons_iff.mp seenArtifacts
  obtain ⟨bare, none, othersShape, bareSeen, _⟩ := List.map_eq_cons_iff.mp othersSeen
  obtain ⟨placedUri, placedPorts⟩ := Prod.mk.inj placedSeen
  obtain ⟨bareUri, barePorts⟩ := Prod.mk.inj bareSeen
  have same : placed = bare :=
    onOne _ transcript model accepted scope isProgram 0 placed (by simp [shape]) bare
      (by simp [shape, othersShape]) (by simp [placedPorts]) (by simp [barePorts])
  rw [same, bareUri] at placedUri
  cases placedUri

end Model

end Flowmark
