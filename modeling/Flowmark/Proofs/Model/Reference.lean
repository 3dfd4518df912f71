import Flowmark.Proofs.Model.Ancestry
import Flowmark.Proofs.Model.Channels
import Flowmark.Proofs.Model.Filing
import Flowmark.Proofs.Model.Numbering
import Flowmark.Proofs.Model.Stock

namespace Flowmark

/-!
# References between records

Records refer to one another and to marks by number.  All numbers that a model has anywhere are
collected by what they refer to, and each is the number of a record or of a mark.
-/

/-- What is the number of a record leads to one. -/
theorem Consecutive.isSome_getElem?
    {α : Type}
    {items : List α}
    {id : α → Nat}
    (consecutive : Consecutive 0 (items.map id))
    {number : Nat}
    (isNumber : ∃ item ∈ items, id item = number) :
    items[number]?.isSome := by
  obtain ⟨item, isItem, rfl⟩ := isNumber
  exact Option.isSome_of_eq_some (consecutive.getElem?_of_mem isItem)

/-! ## Marks -/

/-- Whether a statement declares a port. -/
def Statement.declaresPort
    (statement : Statement) :
    Bool :=
  statement.tag.isPort

/-- A statement declares a port exactly where its role says so. -/
theorem Statement.declaresPort_iff
    (statement : Statement) :
    statement.declaresPort = true ↔ ∃ direction, statement.tag.role = .declares direction := by
  unfold declaresPort
  cases statement.tag <;> simp [Tag.isPort, Tag.direction?, Tag.role]

namespace Outline

/-- The ports of an outline are declared, one by one and in order, by its statements. -/
theorem map_mark_assemble
    {outline : Outline}
    (roles : outline.HasRoles)
    (scope : ProgramId)
    (before : Sizes)
    (taken : List Port) :
    (outline.assemble scope before taken).records.ports.map Port.mark =
      (outline.statements.filter Statement.declaresPort).map Statement.id := by
  induction outline generalizing scope before taken with
  | nil => rfl
  | port declaration direction rest inductionHypothesis =>
      have declares : declaration.declaresPort = true := by
        simp [Statement.declaresPort_iff, roles.1]
      rw [assemble, statements, List.filter_cons_of_pos declares, List.map_cons]
      split
      · exact congrArg (declaration.id :: ·) (inductionHypothesis roles.2 _ _ _)
      · exact congrArg (declaration.id :: ·) (inductionHypothesis roles.2 _ _ _)
  | call site rest inductionHypothesis =>
      have declaresNone : ¬ site.declaresPort = true := by
        simp [Statement.declaresPort_iff, roles.1]
      rw [statements, List.filter_cons_of_neg declaresNone]
      exact inductionHypothesis roles.2 _ _ _
  | scope opener body closer rest bodyHypothesis inductionHypothesis =>
      obtain ⟨opens, bodyRoles, closes, restRoles⟩ := roles
      have opensOnly : ¬ opener.declaresPort = true := by
        simp [Statement.declaresPort_iff, opens]
      have closesOnly : ¬ closer.declaresPort = true := by
        simp [Statement.declaresPort_iff, closes]
      rw [statements, List.filter_cons_of_neg opensOnly, List.filter_append,
        List.filter_cons_of_neg closesOnly, List.map_append, ← bodyHypothesis bodyRoles,
        ← inductionHypothesis restRoles]
      exact List.map_append

end Outline

namespace Block

/-- The ports of blocks are declared, one by one and in order, by their statements. -/
theorem map_mark_records
    {blocks : List Block}
    (roles : ∀ block ∈ blocks, block.HasRoles)
    (before : Sizes) :
    (records before blocks).ports.map Port.mark =
      ((blocks.flatMap statements).filter Statement.declaresPort).map Statement.id := by
  induction blocks generalizing before with
  | nil => rfl
  | cons block blocks inductionHypothesis =>
      obtain ⟨blockRoles, restRoles⟩ := List.forall_mem_cons.mp roles
      have ofBlock : (block.assembleAt ⟨none, before⟩).records.ports.map Port.mark =
          (block.statements.filter Statement.declaresPort).map Statement.id := by
        have opensOnly : ¬ block.opener.declaresPort = true := by
          simp [Statement.declaresPort_iff, blockRoles.opens]
        have closesOnly : ¬ block.closer.declaresPort = true := by
          simp [Statement.declaresPort_iff, blockRoles.closes]
        rw [statements, List.filter_cons_of_neg opensOnly, List.filter_append,
          List.filter_cons_of_neg closesOnly, List.filter_nil, List.append_nil]
        exact Outline.map_mark_assemble blockRoles.body _ _ _
      rw [List.flatMap_cons, List.filter_append, List.map_append, ← ofBlock,
        ← inductionHypothesis restRoles]
      exact List.map_append

/-- The records of blocks are numbered from the sizes before them. -/
theorem allNumbered_records
    (before : Sizes)
    (blocks : List Block) :
    (records before blocks).AllNumbered before := by
  induction blocks generalizing before with
  | nil => exact ⟨⟨.nil _, .nil _, .nil _⟩, .nil _⟩
  | cons block blocks inductionHypothesis =>
      exact (block.allNumbered_assembleAt ⟨none, before⟩).append (inductionHypothesis _)

end Block

/-- The primary of a statement of a transcript is found under its number. -/
theorem Transcript.get?_id_of_mem_statements
    {transcript : Transcript}
    {statement : Statement}
    (isStatement : statement ∈ transcript.statements) :
    transcript.get? statement.id = some statement.primary := by
  obtain ⟨primary, isPrimary, rfl⟩ := List.mem_map.mp isStatement
  exact transcript.get?_id_of_mem (List.mem_filter.mp isPrimary).1

/-- The opener of a site stands among the statements. -/
theorem Site.opener_mem
    {site : Site}
    {statements : List Statement}
    (standsIn : site.StandsIn statements) :
    site.opener ∈ statements := by
  obtain ⟨before, after, shape, _⟩ := standsIn.exists_before_opener
  simp [shape]

/-- The closer of a site stands among the statements. -/
theorem Site.closer_mem
    {site : Site}
    {statements : List Statement}
    (standsIn : site.StandsIn statements)
    {closer : Statement}
    (isCloser : site.closer = some closer) :
    closer ∈ statements := by
  obtain ⟨before, after, shape, _⟩ := standsIn.exists_before_closer isCloser
  simp [shape]

/-- The artifacts of a node are those of its wiring, unless it is a call. -/
theorem Node.mem_artifacts_iff
    {node : Node}
    (artifact : Artifact) :
    artifact ∈ node.artifacts ↔
      node.program.isInvocation = false ∧
        artifact ∈ node.wiring.artifacts node.program.id node.inside := by
  unfold artifacts
  split
  · rename_i isCall
    simp [isCall]
  · rename_i isScope
    simp [isScope]

namespace Model

/-! ## Numbers of a model -/

section Numbers

variable (model : Model)

/-- The numbers by which a model knows or refers to programs. -/
def programIds :
    List ProgramId :=
  (model.programs.flatMap fun program =>
      program.id :: (program.parent.toList ++ program.children)) ++
    model.ports.map Port.owner ++
    model.channels.map Channel.scope ++
    model.artifacts.map Artifact.scope ++
    model.topLevel ++
    model.root.toList

/-- The numbers by which a model knows or refers to ports. -/
def portIds :
    List PortId :=
  model.ports.map Port.id ++
    (model.programs.flatMap fun program =>
      program.inputs ++ program.outputs ++ program.results) ++
    (model.channels.flatMap fun channel => [channel.source, channel.sink]) ++
    model.artifacts.flatMap Artifact.ports

/-- The numbers by which a model knows or refers to channels. -/
def channelIds :
    List ChannelId :=
  model.channels.map Channel.id ++ model.programs.flatMap Program.channels

/-- The numbers by which a model knows or refers to artifacts. -/
def artifactIds :
    List ArtifactId :=
  model.artifacts.map Artifact.id ++
    model.programs.flatMap Program.artifacts ++
    model.channels.map Channel.artifact

/-- The numbers by which a model refers to marks. -/
def markIds :
    List MarkId :=
  (model.programs.flatMap fun program => program.openedBy :: program.closedBy.toList) ++
    model.ports.map Port.mark

end Numbers

/-- The root is one of the programs at the top. -/
theorem mem_of_chooseRoot
    {records : Records}
    {topLevel : List ProgramId}
    {workflow : Option String}
    {root : ProgramId}
    (chosen : chooseRoot records topLevel workflow = some root) :
    root ∈ topLevel := by
  cases workflow with
  | none => exact List.mem_of_head? chosen
  | some name => exact List.mem_of_find?_eq_some chosen

namespace FormedBy

variable {model : Model} {nodes : List Node} {node : Node}

/-- Each number of a program is that of a program of the model. -/
theorem exists_of_programIds
    (formed : model.FormedBy nodes)
    (rootListed : ∀ id, model.root = some id → id ∈ model.topLevel) :
    ∀ id ∈ model.programIds, ∃ program ∈ model.programs, program.id = id := by
  have ofTop : ∀ id ∈ model.topLevel, ∃ program ∈ model.programs, program.id = id := by
    intro id isListed
    obtain ⟨program, isProgram, same, _⟩ := (formed.filed.topLevel.mem_iff id).mp isListed
    exact ⟨program, isProgram, same⟩
  have ofNode : ∀ {node}, node ∈ nodes → ∃ program ∈ model.programs, program.id = node.program.id :=
    fun isNode => ⟨_, formed.mem_programs_of_node isNode, rfl⟩
  simp only [programIds, List.forall_mem_append]
  refine ⟨⟨⟨⟨⟨?programs, ?owners⟩, ?channelScopes⟩, ?artifactScopes⟩, ofTop⟩, ?root⟩
  case programs =>
    intro id isId
    obtain ⟨program, isProgram, inProgram⟩ := List.mem_flatMap.mp isId
    rcases List.mem_cons.mp inProgram with rfl | inLinks
    · exact ⟨program, isProgram, rfl⟩
    rcases List.mem_append.mp inLinks with isParent | isChild
    · obtain ⟨node, isNode, rfl⟩ := formed.node_of_mem isProgram
      rw [Option.mem_toList] at isParent
      rcases formed.parent_of_node isNode with noParent | ⟨outer, isOuter, hasParent, _⟩
      · rw [noParent] at isParent
        cases isParent
      · rw [hasParent] at isParent
        cases isParent
        exact ofNode isOuter
    · obtain ⟨child, isChild, same, _⟩ :=
        ((formed.filed.children program isProgram).mem_iff id).mp isChild
      exact ⟨child, isChild, same⟩
  case owners =>
    intro id isId
    obtain ⟨port, isPort, rfl⟩ := List.mem_map.mp isId
    obtain ⟨node, isNode, isOwn⟩ := (formed.mem_ports_iff port).mp isPort
    rw [(formed.sound isNode).owners port isOwn]
    exact ofNode isNode
  case channelScopes =>
    intro id isId
    obtain ⟨channel, isChannel, rfl⟩ := List.mem_map.mp isId
    obtain ⟨node, isNode, isOwn⟩ := (formed.mem_channels_iff channel).mp isChannel
    rw [Node.scope_of_mem_channels isOwn]
    exact ofNode isNode
  case artifactScopes =>
    intro id isId
    obtain ⟨artifact, isArtifact, rfl⟩ := List.mem_map.mp isId
    obtain ⟨node, isNode, isOwn⟩ := (formed.mem_artifacts_iff artifact).mp isArtifact
    rw [Node.scope_of_mem_artifacts isOwn]
    exact ofNode isNode
  case root =>
    intro id isRoot
    exact ofTop id (rootListed id (Option.mem_toList.mp isRoot))

/-- What is registered joins ports of the model with one binding. -/
theorem ports_of_registered
    (formed : model.FormedBy nodes)
    (isNode : node ∈ nodes)
    {source sink : Port}
    (isRegistered : (source, sink) ∈ node.wiring.registered) :
    source ∈ model.ports ∧ sink ∈ model.ports ∧ source.binding = sink.binding := by
  rcases List.mem_append.mp isRegistered with isFlow | isShown
  · obtain ⟨isSource, isSink⟩ := formed.mem_ports_of_flow isNode isFlow
    obtain ⟨producer, _, consumer, _, rfl, rfl, feeds⟩ := (formed.apart isNode).distinct.flow isFlow
    exact ⟨isSource, isSink, ((Endpoint.canFeed_iff producer consumer).mp feeds).2.2⟩
  · obtain ⟨port, isInterface, same⟩ := List.mem_map.mp isShown
    obtain ⟨rfl, rfl⟩ := Prod.mk.inj same
    have isPort := formed.mem_ports_of_interface isNode port isInterface
    exact ⟨isPort, isPort, rfl⟩

/-- The ports on an artifact are ports of the model. -/
theorem exists_port_of_artifact
    (formed : model.FormedBy nodes)
    (isNode : node ∈ nodes)
    {artifact : Artifact}
    (isArtifact : artifact ∈ node.artifacts)
    {id : PortId}
    (isOn : id ∈ artifact.ports) :
    ∃ port ∈ model.ports, port.id = id := by
  rw [Wiring.mem_ports_artifact_iff ((Node.mem_artifacts_iff artifact).mp isArtifact).2] at isOn
  obtain ⟨⟨source, sink⟩, isRegistered, _, isEnd⟩ := isOn
  obtain ⟨isSource, isSink, _⟩ := formed.ports_of_registered isNode isRegistered
  rcases isEnd with rfl | rfl
  · exact ⟨source, isSource, rfl⟩
  · exact ⟨sink, isSink, rfl⟩

/-- Each number of a port is that of a port of the model. -/
theorem exists_of_portIds
    (formed : model.FormedBy nodes) :
    ∀ id ∈ model.portIds, ∃ port ∈ model.ports, port.id = id := by
  have ofFlow : ∀ {node}, node ∈ nodes → ∀ flow ∈ node.wiring.flows,
      (∃ port ∈ model.ports, port.id = flow.1.id) ∧ ∃ port ∈ model.ports, port.id = flow.2.id := by
    intro node isNode flow isFlow
    obtain ⟨isSource, isSink⟩ := formed.mem_ports_of_flow isNode isFlow
    exact ⟨⟨_, isSource, rfl⟩, ⟨_, isSink, rfl⟩⟩
  simp only [portIds, List.forall_mem_append]
  refine ⟨⟨⟨?ports, ?programs⟩, ?channels⟩, ?artifacts⟩
  case ports =>
    intro id isId
    exact List.mem_map.mp isId
  case programs =>
    intro id isId
    obtain ⟨program, isProgram, inProgram⟩ := List.mem_flatMap.mp isId
    obtain ⟨node, isNode, rfl⟩ := formed.node_of_mem isProgram
    have sound := formed.sound isNode
    rw [sound.inputs, sound.outputs, sound.results, List.append_assoc, ← List.map_append,
      ← List.map_append] at inProgram
    obtain ⟨port, isPort, rfl⟩ := List.mem_map.mp inProgram
    exact ⟨port, formed.mem_ports_of_interface isNode port isPort, rfl⟩
  case channels =>
    intro id isId
    obtain ⟨channel, isChannel, isEnd⟩ := List.mem_flatMap.mp isId
    obtain ⟨node, isNode, isOwn⟩ := (formed.mem_channels_iff channel).mp isChannel
    obtain ⟨source, sink, isFlow, sourceId, sinkId⟩ := Node.flow_of_channel isOwn
    obtain ⟨ofSource, ofSink⟩ := ofFlow isNode _ isFlow
    rw [List.mem_pair, sourceId, sinkId] at isEnd
    rcases isEnd with rfl | rfl
    · exact ofSource
    · exact ofSink
  case artifacts =>
    intro id isId
    obtain ⟨artifact, isArtifact, isRegistered⟩ := List.mem_flatMap.mp isId
    obtain ⟨node, isNode, isOwn⟩ := (formed.mem_artifacts_iff artifact).mp isArtifact
    exact formed.exists_port_of_artifact isNode isOwn isRegistered

/-- Each number of a channel is that of a channel of the model. -/
theorem exists_of_channelIds
    (formed : model.FormedBy nodes) :
    ∀ id ∈ model.channelIds, ∃ channel ∈ model.channels, channel.id = id := by
  simp only [channelIds, List.forall_mem_append]
  refine ⟨fun id isId => List.mem_map.mp isId, ?_⟩
  intro id isId
  obtain ⟨program, isProgram, inProgram⟩ := List.mem_flatMap.mp isId
  obtain ⟨channel, isChannel, same, _⟩ :=
    ((formed.filed.channels program isProgram).mem_iff id).mp inProgram
  exact ⟨channel, isChannel, same⟩

/-- Each number of an artifact is that of an artifact of the model. -/
theorem exists_of_artifactIds
    (formed : model.FormedBy nodes) :
    ∀ id ∈ model.artifactIds, ∃ artifact ∈ model.artifacts, artifact.id = id := by
  simp only [artifactIds, List.forall_mem_append]
  refine ⟨⟨fun id isId => List.mem_map.mp isId, ?_⟩, ?_⟩
  · intro id isId
    obtain ⟨program, isProgram, inProgram⟩ := List.mem_flatMap.mp isId
    obtain ⟨artifact, isArtifact, same, _⟩ :=
      ((formed.filed.artifacts program isProgram).mem_iff id).mp inProgram
    exact ⟨artifact, isArtifact, same⟩
  · intro id isId
    obtain ⟨channel, isChannel, rfl⟩ := List.mem_map.mp isId
    obtain ⟨artifact, isArtifact, same, _⟩ := formed.exists_carried isChannel
    exact ⟨artifact, isArtifact, same⟩

end FormedBy

/-- Every number that a model has leads to a record of its sort, or to a mark of a transcript. -/
structure Resolves
    (model : Model)
    (transcript : Transcript) :
    Prop where
  programs : ∀ id ∈ model.programIds, (model.program? id).isSome
  ports : ∀ id ∈ model.portIds, (model.port? id).isSome
  channels : ∀ id ∈ model.channelIds, (model.channel? id).isSome
  artifacts : ∀ id ∈ model.artifactIds, (model.artifact? id).isSome
  marks : ∀ id ∈ model.markIds, (transcript.get? id).isSome

section Accepted

variable
  {workflow : Option String}
  {transcript : Transcript}
  {model : Model}
  (accepted : ofTranscript workflow transcript = .ok model)

include accepted

/-- All records of a model are numbered by their places. -/
theorem allNumbered_of_ofTranscript :
    model.toRecords.AllNumbered .zero := by
  obtain ⟨blocks, _, rfl⟩ := blocks_of_ofTranscript accepted
  exact Block.allNumbered_records .zero blocks

/-- The root of a model is one of the programs at its top. -/
theorem root_of_ofTranscript :
    ∀ id, model.root = some id → id ∈ model.topLevel := by
  obtain ⟨blocks, _, rfl⟩ := blocks_of_ofTranscript accepted
  exact fun _ => mem_of_chooseRoot

/-- The ports of a model are declared, one by one and in order, by the statements. -/
theorem map_mark_of_ofTranscript :
    model.ports.map Port.mark =
      (transcript.statements.filter Statement.declaresPort).map Statement.id := by
  obtain ⟨blocks, isRead, rfl⟩ := blocks_of_ofTranscript accepted
  obtain ⟨roles, consistOf⟩ := Transcript.blocks_of_ofStatements isRead
  rw [← consistOf]
  exact Block.map_mark_records roles .zero

/-- Each number of a mark is that of a statement. -/
theorem exists_of_markIds :
    ∀ id ∈ model.markIds, ∃ statement ∈ transcript.statements, id = statement.id := by
  obtain ⟨sites, standsAmong⟩ := standsAmong_of_ofTranscript accepted
  simp only [markIds, List.forall_mem_append]
  refine ⟨?programs, ?ports⟩
  case programs =>
    intro id isId
    obtain ⟨program, isProgram, inProgram⟩ := List.mem_flatMap.mp isId
    obtain ⟨site, standsIn, standsAt⟩ := standsAmong.exists_site isProgram
    rcases List.mem_cons.mp inProgram with rfl | isCloser
    · exact ⟨site.opener, Site.opener_mem standsIn, standsAt.openedBy⟩
    · rw [Option.mem_toList, standsAt.closedBy] at isCloser
      obtain ⟨closer, hasCloser, same⟩ := Option.map_eq_some_iff.mp isCloser
      exact ⟨closer, Site.closer_mem standsIn hasCloser, same.symm⟩
  case ports =>
    intro id isId
    rw [map_mark_of_ofTranscript accepted] at isId
    obtain ⟨statement, isPort, rfl⟩ := List.mem_map.mp isId
    exact ⟨statement, (List.mem_filter.mp isPort).1, rfl⟩

/-- Every number that the model of a transcript has leads to something. -/
theorem resolves_of_ofTranscript :
    model.Resolves transcript := by
  obtain ⟨nodes, formed⟩ := formedBy_of_ofTranscript accepted
  have numbered := allNumbered_of_ofTranscript accepted
  have rootListed := root_of_ofTranscript accepted
  exact
    { programs := fun id isId =>
        numbered.programs.isSome_getElem? (formed.exists_of_programIds rootListed id isId)
      ports := fun id isId => numbered.ports.isSome_getElem? (formed.exists_of_portIds id isId)
      channels := fun id isId =>
        numbered.channels.isSome_getElem? (formed.exists_of_channelIds id isId)
      artifacts := fun id isId =>
        numbered.artifacts.isSome_getElem? (formed.exists_of_artifactIds id isId)
      marks := by
        intro id isId
        obtain ⟨statement, isStatement, rfl⟩ := exists_of_markIds accepted id isId
        exact Option.isSome_of_eq_some (Transcript.get?_id_of_mem_statements isStatement) }

end Accepted

end Model

end Flowmark
