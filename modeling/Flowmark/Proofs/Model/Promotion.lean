import Flowmark.Proofs.Model.Channels
import Mathlib.Data.List.Chain

namespace Flowmark

/-!
# Promotion of ports

A port is shown by its owner and by the programs around it, up to the scope in which a channel joins
it or up to the top level.  So no port is lost, shown twice or consumed twice.
-/

/-- The end of a channel at which it joins a port of a direction from inside its program. -/
def Channel.innerEnd
    (channel : Channel) :
    Direction → PortId
  | .input => channel.source
  | .output => channel.sink

namespace Model

/-- From a program each number is that of the parent of the one before, up to the top level. -/
structure Ascent
    (model : Model)
    (id : ProgramId)
    (ids : List ProgramId) :
    Prop where
  start : ids.head? = some id
  parents : ids.IsChain fun inner outer =>
    ∃ program, model.program? inner = some program ∧ program.parent = some outer
  top : ∀ last ∈ ids.getLast?,
    ∃ program, model.program? last = some program ∧ program.parent = none

/-- Some programs show a port once each, in the list of its direction, and no others show it. -/
def ShownBy
    (model : Model)
    (port : Port)
    (ids : List ProgramId) :
    Prop :=
  ∀ program ∈ model.programs, ∀ direction,
    (program.ports direction).count port.id =
      if direction = port.direction ∧ program.id ∈ ids then 1 else 0

/--
A port is joined by channels of one scope around its owner, and shown by the programs below that
scope; or no channel joins it from outside, and it is shown up to the top level.
-/
inductive Promoted
    (model : Model)
    (port : Port) :
    Prop where
  | joined
      {inner outer : List ProgramId}
      {scope : ProgramId}
      (lineage : model.lineage port.owner = inner ++ scope :: outer)
      (around : inner ≠ [])
      (isJoined : ∃ channel ∈ model.channels, channel.outerEnd port.direction = port.id)
      (scopes : ∀ channel ∈ model.channels,
        channel.outerEnd port.direction = port.id → channel.scope = scope)
      (shown : model.ShownBy port inner)
  | unjoined
      (isFree : ∀ channel ∈ model.channels, channel.outerEnd port.direction ≠ port.id)
      (shown : model.ShownBy port (model.lineage port.owner))

end Model

/-! What is passed on along a chain holds up to the first place that keeps it. -/

namespace Passing

variable {α : Type} {shows keeps : α → Prop}

/-- From one place of a chain to the next, what is shown is passed on or kept. -/
abbrev Step
    (shows keeps : α → Prop)
    (inner outer : α) :
    Prop :=
  (shows outer ↔ shows inner ∧ ¬ keeps outer) ∧ (keeps outer → shows inner)

/-- What the first place does not show is neither shown nor kept at any later place. -/
theorem none_of_not_shown
    {first : α}
    {rest : List α}
    (chain : (first :: rest).IsChain (Step shows keeps))
    (notShown : ¬ shows first) :
    ∀ place ∈ rest, ¬ shows place ∧ ¬ keeps place := by
  induction rest generalizing first with
  | nil => simp
  | cons next rest inductionHypothesis =>
      obtain ⟨⟨showsNext, keepsNext⟩, restChain⟩ := List.isChain_cons_cons.mp chain
      have notShownNext : ¬ shows next := fun isShown => notShown (showsNext.mp isShown).1
      exact List.forall_mem_cons.mpr
        ⟨⟨notShownNext, fun kept => notShown (keepsNext kept)⟩,
          inductionHypothesis restChain notShownNext⟩

/--
What the first place shows is shown along the whole chain, or up to the only place that keeps it and
nowhere from there on.
-/
theorem split
    {first : α}
    {rest : List α}
    (chain : (first :: rest).IsChain (Step shows keeps))
    (isShown : shows first) :
    ((∀ place ∈ first :: rest, shows place) ∧ ∀ place ∈ rest, ¬ keeps place) ∨
      ∃ inner keeper outer,
        first :: rest = inner ++ keeper :: outer ∧
          inner ≠ [] ∧
          keeps keeper ∧
          (∀ place ∈ inner, shows place) ∧
          (∀ place ∈ keeper :: outer, ¬ shows place) ∧
          ∀ place ∈ rest, keeps place → place = keeper := by
  induction rest generalizing first with
  | nil => exact Or.inl ⟨List.forall_mem_singleton.mpr isShown, by simp⟩
  | cons next rest inductionHypothesis =>
      obtain ⟨⟨showsNext, _⟩, restChain⟩ := List.isChain_cons_cons.mp chain
      by_cases kept : keeps next
      · have notShown : ¬ shows next := fun nextShown => (showsNext.mp nextShown).2 kept
        have noneLater := none_of_not_shown restChain notShown
        refine Or.inr ⟨[first], next, rest, rfl, by simp, kept,
          List.forall_mem_singleton.mpr isShown, ?_, ?_⟩
        · exact List.forall_mem_cons.mpr ⟨notShown, fun place later => (noneLater place later).1⟩
        · exact List.forall_mem_cons.mpr
            ⟨fun _ => rfl, fun place later keptLater => absurd keptLater (noneLater place later).2⟩
      · rcases inductionHypothesis restChain (showsNext.mpr ⟨isShown, kept⟩) with
          ⟨allShown, noneKept⟩ | ⟨inner, keeper, outer, shape, _, keeps, shown, notShown, unique⟩
        · exact Or.inl ⟨List.forall_mem_cons.mpr ⟨isShown, allShown⟩,
            List.forall_mem_cons.mpr ⟨kept, noneKept⟩⟩
        · refine Or.inr ⟨first :: inner, keeper, outer, by rw [shape]; rfl, by simp, keeps,
            List.forall_mem_cons.mpr ⟨isShown, shown⟩, notShown, ?_⟩
          exact List.forall_mem_cons.mpr ⟨fun keptNext => absurd keptNext kept, unique⟩

end Passing

namespace Model.FormedBy

variable {model : Model} {nodes : List Node} {node : Node} {port : Port}

/-- The lineage of a program climbs from parent to parent up to the top level. -/
theorem ascent_lineage
    (formed : model.FormedBy nodes)
    (isNode : node ∈ nodes) :
    model.Ascent node.program.id (model.lineage node.program.id) := by
  induction number : node.program.id using Nat.strongRecOn generalizing node with
  | ind number inductionHypothesis =>
      subst number
      have found := formed.program?_of_node isNode
      rcases formed.parent_of_node isNode with noParent | ⟨outer, isOuter, isParent, _, before⟩
      · rw [formed.lineage_of_top isNode noParent]
        refine ⟨rfl, .singleton _, ?_⟩
        rintro last ⟨⟩
        exact ⟨node.program, found, noParent⟩
      · obtain ⟨start, parents, top⟩ := inductionHypothesis outer.program.id before isOuter rfl
        rw [formed.lineage_of_child isOuter isNode isParent]
        obtain ⟨rest, shape⟩ := List.head?_eq_some_iff.mp start
        rw [shape] at parents top ⊢
        refine ⟨rfl, List.isChain_cons_cons.mpr ⟨⟨node.program, found, isParent⟩, parents⟩, ?_⟩
        rwa [List.getLast?_cons_cons]

/-- Every port is among those of the node that owns it. -/
theorem exists_owner
    (formed : model.FormedBy nodes)
    (isPort : port ∈ model.ports) :
    ∃ node ∈ nodes, port ∈ node.ports ∧ port.owner = node.program.id := by
  obtain ⟨node, isNode, isOwn⟩ := (formed.mem_ports_iff port).mp isPort
  exact ⟨node, isNode, isOwn, (formed.sound isNode).owners port isOwn⟩

/-- A flow that joins a port from outside its program joins what a child shows. -/
theorem shown_of_outerEnd
    (formed : model.FormedBy nodes)
    (isNode : node ∈ nodes)
    (isEnd : port ∈ node.wiring.outerEnds port.direction) :
    ∃ child ∈ nodes,
      child.program.parent = some node.program.id ∧
        port ∈ child.wiring.interface.ports port.direction ∧
        child.program.id ∈ model.lineage port.owner := by
  have sound := formed.sound isNode
  have isShown :
      port ∈ node.members.flatMap fun member => member.ports port.direction := by
    cases direction : port.direction with
    | input =>
        rw [direction] at isEnd
        obtain ⟨⟨source, sink⟩, isFlow, rfl⟩ := List.mem_map.mp isEnd
        rcases ((formed.apart isNode).distinct.ends_of_flow isFlow).2 with isOwn | isShown
        · have isOutput := ((Node.mem_own_ports_iff sound _ _).mp isOwn).2
          rw [direction] at isOutput
          cases isOutput
        · exact isShown
    | output =>
        rw [direction] at isEnd
        obtain ⟨⟨source, sink⟩, isFlow, rfl⟩ := List.mem_map.mp isEnd
        rcases ((formed.apart isNode).distinct.ends_of_flow isFlow).1 with isOwn | isShown
        · have isInput := ((Node.mem_own_ports_iff sound _ _).mp isOwn).2
          rw [direction] at isInput
          cases isInput
        · exact isShown
  obtain ⟨member, isMember, memberShows⟩ := List.mem_flatMap.mp isShown
  obtain ⟨_, _, child, isChild, isParent, rfl, inLineage⟩ :=
    formed.child_of_shown isNode (formed.childrenApart node) isMember memberShows
  rw [Node.ports_member] at memberShows
  exact ⟨child, isChild, isParent, memberShows, inLineage⟩

/-- Between a child and its parent on the lineage of a port, the port is passed on or joined. -/
theorem passing
    (formed : model.FormedBy nodes)
    {child : Node}
    (isNode : node ∈ nodes)
    (isChild : child ∈ nodes)
    (isParent : child.program.parent = some node.program.id)
    (inLineage : child.program.id ∈ model.lineage port.owner) :
    (port ∈ node.wiring.interface.ports port.direction ↔
        port ∈ child.wiring.interface.ports port.direction ∧
          port ∉ node.wiring.outerEnds port.direction) ∧
      (port ∈ node.wiring.outerEnds port.direction →
        port ∈ child.wiring.interface.ports port.direction) := by
  have sound := formed.sound isNode
  have isMember := formed.member_of_parent isNode isChild isParent
  have notOwn : port ∉ node.own.ports port.direction := by
    intro isOwn
    have isPort := ((Node.mem_own_ports_iff sound _ port).mp isOwn).1
    rw [sound.owners port isPort] at inLineage
    exact absurd (sound.below _ isMember) (Nat.not_lt_of_le (le_of_mem_lineage inLineage))
  have onlyChild : (∃ member ∈ node.members, port ∈ member.ports port.direction) ↔
      port ∈ child.wiring.interface.ports port.direction := by
    rw [← Node.ports_member]
    constructor
    · rintro ⟨member, isOther, memberShows⟩
      obtain ⟨_, _, other, isOtherChild, otherParent, rfl, otherInLineage⟩ :=
        formed.child_of_shown isNode (formed.childrenApart node) isOther memberShows
      rwa [formed.sibling_ext isNode isChild isOtherChild isParent otherParent inLineage
        otherInLineage]
    · exact fun isShown => ⟨child.member, isMember, isShown⟩
  constructor
  · rw [Node.wiring, (formed.apart isNode).distinct.mem_ports_iff, onlyChild]
    simp [notOwn, Node.wiring]
  · intro isEnd
    obtain ⟨other, isOther, otherParent, otherShows, otherInLineage⟩ :=
      formed.shown_of_outerEnd isNode isEnd
    rwa [formed.sibling_ext isNode isChild isOther isParent otherParent inLineage otherInLineage]

/-- The programs of a model that show a port in the list of its direction. -/
def Shows
    (nodes : List Node)
    (port : Port)
    (id : ProgramId) :
    Prop :=
  ∃ node ∈ nodes,
    node.program.id = id ∧ port ∈ node.wiring.interface.ports port.direction

/-- The scopes of a model whose channels join a port from outside its program. -/
def Keeps
    (nodes : List Node)
    (port : Port)
    (id : ProgramId) :
    Prop :=
  ∃ node ∈ nodes,
    node.program.id = id ∧ port ∈ node.wiring.outerEnds port.direction

/-- A program shows a port where the interface of its node has it. -/
theorem shows_iff
    (formed : model.FormedBy nodes)
    (isNode : node ∈ nodes) :
    Shows nodes port node.program.id ↔
      port ∈ node.wiring.interface.ports port.direction := by
  constructor
  · rintro ⟨other, isOther, sameId, isShown⟩
    rwa [← formed.node_ext isOther isNode sameId]
  · exact fun isShown => ⟨node, isNode, rfl, isShown⟩

/-- A scope keeps a port where a flow of its node joins it from outside. -/
theorem keeps_iff
    (formed : model.FormedBy nodes)
    (isNode : node ∈ nodes) :
    Keeps nodes port node.program.id ↔ port ∈ node.wiring.outerEnds port.direction := by
  constructor
  · rintro ⟨other, isOther, sameId, isEnd⟩
    rwa [← formed.node_ext isOther isNode sameId]
  · exact fun isEnd => ⟨node, isNode, rfl, isEnd⟩

/-- A program that is found by a number has a node with the number. -/
theorem exists_node
    (formed : model.FormedBy nodes)
    {id : ProgramId}
    {program : Program}
    (found : model.program? id = some program) :
    ∃ node ∈ nodes, node.program = program ∧ node.program.id = id := by
  obtain ⟨node, isNode, rfl⟩ := formed.node_of_mem (List.mem_of_getElem? found)
  refine ⟨node, isNode, rfl, ?_⟩
  have foundAgain := formed.program?_of_node isNode
  have inBounds := (List.getElem?_eq_some_iff.mp found).1
  have nodup : model.programs.Nodup := formed.numbered.programs.nodup.of_map
  exact (((List.getElem?_inj inBounds nodup).mp (found.trans foundAgain.symm))).symm

/-- Along the lineage of a port, the port is passed on until it is joined. -/
theorem passing_lineage
    (formed : model.FormedBy nodes)
    (isPort : port ∈ model.ports) :
    (model.lineage port.owner).IsChain (Passing.Step (Shows nodes port) (Keeps nodes port)) := by
  obtain ⟨owner, isOwner, _, ownerId⟩ := formed.exists_owner isPort
  have parents := (formed.ascent_lineage isOwner).parents
  rw [← ownerId] at parents
  refine parents.imp_of_mem_imp ?_
  rintro inner outer inLineage _ ⟨program, found, isParent⟩
  obtain ⟨child, isChild, rfl, rfl⟩ := formed.exists_node found
  rcases formed.parent_of_node isChild with noParent | ⟨node, isNode, hasParent, _, _⟩
  · rw [isParent] at noParent
    cases noParent
  · rw [isParent] at hasParent
    rw [Option.some.inj hasParent]
    unfold Passing.Step
    rw [formed.shows_iff isNode, formed.keeps_iff isNode, formed.shows_iff isChild]
    exact formed.passing isNode isChild (Option.some.inj hasParent ▸ isParent) inLineage

/-- A port is shown exactly by programs that list it once. -/
theorem shownBy_of_shows
    (formed : model.FormedBy nodes)
    (isPort : port ∈ model.ports)
    {ids : List ProgramId}
    (shows : ∀ node ∈ nodes, Shows nodes port node.program.id ↔ node.program.id ∈ ids) :
    model.ShownBy port ids := by
  intro program isProgram direction
  rw [formed.programs] at isProgram
  obtain ⟨node, isNode, rfl⟩ := List.mem_map.mp isProgram
  have apart := formed.apart isNode
  have arePorts : ∀ other ∈ node.wiring.interface.ports direction, other ∈ model.ports :=
    fun other isShown => (apart.shown direction other isShown).1
  have nodup : ((node.wiring.interface.ports direction).map Port.id).Nodup := by
    refine List.Nodup.map_on ?_ (apart.nodup direction)
    intro first isFirst second isSecond sameId
    exact formed.port_ext (arePorts first isFirst) (arePorts second isSecond) sameId
  have isShown : port.id ∈ (node.wiring.interface.ports direction).map Port.id ↔
      direction = port.direction ∧ node.program.id ∈ ids := by
    rw [formed.mem_map_id_iff arePorts isPort, ← shows node isNode, formed.shows_iff isNode]
    constructor
    · intro inInterface
      have sameDirection := (apart.shown direction port inInterface).2.1
      exact ⟨sameDirection.symm, sameDirection ▸ inInterface⟩
    · rintro ⟨rfl, inInterface⟩
      exact inInterface
  rw [formed.ports_eq isNode, nodup.count]
  simp only [isShown]

/-- Only programs around the owner of a port show it. -/
theorem mem_lineage_of_shows
    (formed : model.FormedBy nodes)
    {id : ProgramId}
    (shows : Shows nodes port id) :
    id ∈ model.lineage port.owner := by
  obtain ⟨node, isNode, rfl, isShown⟩ := shows
  exact ((formed.apart isNode).shown _ port isShown).2.2

/-- Only scopes around the owner of a port join it from outside. -/
theorem mem_lineage_of_keeps
    (formed : model.FormedBy nodes)
    {id : ProgramId}
    (keeps : Keeps nodes port id) :
    id ∈ model.lineage port.owner ∧ id ≠ port.owner := by
  obtain ⟨node, isNode, rfl, isEnd⟩ := keeps
  obtain ⟨child, isChild, isParent, _, inLineage⟩ := formed.shown_of_outerEnd isNode isEnd
  have before := (formed.sound isNode).below _ (formed.member_of_parent isNode isChild isParent)
  obtain ⟨inner, shape⟩ := lineage_eq_append inLineage
  constructor
  · rw [shape, formed.lineage_of_child isNode isChild isParent]
    exact List.mem_append_right _ (List.mem_cons_of_mem _ (mem_lineage_self model _))
  · intro isOwner
    exact absurd (Nat.lt_of_lt_of_le before (le_of_mem_lineage inLineage))
      (isOwner ▸ Nat.lt_irrefl _)

/-- A channel joins a port from outside exactly in a scope that keeps it. -/
theorem keeps_scope_of_channel
    (formed : model.FormedBy nodes)
    (isPort : port ∈ model.ports)
    {channel : Channel}
    (isChannel : channel ∈ model.channels)
    (isEnd : channel.outerEnd port.direction = port.id) :
    Keeps nodes port channel.scope := by
  obtain ⟨node, isNode, ofNode⟩ := (formed.mem_channels_iff channel).mp isChannel
  refine ⟨node, isNode, (Node.scope_of_mem_channels ofNode).symm, ?_⟩
  rw [← formed.mem_outerEnds_iff isNode isPort, formed.channelsOf_eq isNode]
  exact List.mem_map.mpr ⟨channel, ofNode, isEnd⟩

/-- A scope that keeps a port has a channel that joins the port from outside its program. -/
theorem channel_of_keeps
    (formed : model.FormedBy nodes)
    (isPort : port ∈ model.ports)
    {id : ProgramId}
    (keeps : Keeps nodes port id) :
    ∃ channel ∈ model.channels, channel.outerEnd port.direction = port.id := by
  obtain ⟨node, isNode, _, isEnd⟩ := keeps
  rw [← formed.mem_outerEnds_iff isNode isPort] at isEnd
  obtain ⟨channel, isChannel, joins⟩ := List.mem_map.mp isEnd
  exact ⟨channel, ((formed.mem_channelsOf_iff isNode channel).mp isChannel).1, joins⟩

/-- Every port of a formed model is promoted. -/
theorem promoted
    (formed : model.FormedBy nodes)
    (isPort : port ∈ model.ports) :
    model.Promoted port := by
  obtain ⟨owner, isOwner, isOwn, ownerId⟩ := formed.exists_owner isPort
  obtain ⟨rest, lineage⟩ :=
    List.head?_eq_some_iff.mp (ownerId ▸ (formed.ascent_lineage isOwner).start)
  have chain := formed.passing_lineage isPort
  rw [lineage] at chain
  have ownerShows : Shows nodes port port.owner := by
    refine ⟨owner, isOwner, ownerId.symm, ?_⟩
    apply ((formed.apart isOwner).distinct.mem_ports_iff port.direction port).mpr
    exact Or.inl ((Node.mem_own_ports_iff (formed.sound isOwner) _ port).mpr ⟨isOwn, rfl⟩)
  -- Only programs around the owner keep the port, and they all stand behind it on the lineage.
  have inRest : ∀ id, Keeps nodes port id → id ∈ rest := by
    intro id keeps
    obtain ⟨inLineage, notOwner⟩ := formed.mem_lineage_of_keeps keeps
    rw [lineage] at inLineage
    exact (List.mem_cons.mp inLineage).resolve_left notOwner
  rcases Passing.split chain ownerShows with
    ⟨allShow, noneKeeps⟩ | ⟨inner, scope, outer, shape, around, keeps, shown, notShown, unique⟩
  · refine .unjoined ?_ (formed.shownBy_of_shows isPort ?_)
    · intro channel isChannel isEnd
      have scopeKeeps := formed.keeps_scope_of_channel isPort isChannel isEnd
      exact noneKeeps _ (inRest _ scopeKeeps) scopeKeeps
    · intro node _
      exact ⟨formed.mem_lineage_of_shows, fun inLineage => allShow _ (lineage ▸ inLineage)⟩
  · refine .joined (lineage.trans shape) around (formed.channel_of_keeps isPort keeps) ?_
      (formed.shownBy_of_shows isPort ?_)
    · intro channel isChannel isEnd
      have scopeKeeps := formed.keeps_scope_of_channel isPort isChannel isEnd
      exact unique _ (inRest _ scopeKeeps) scopeKeeps
    · intro node _
      refine ⟨?_, shown node.program.id⟩
      intro shows
      have inLineage := formed.mem_lineage_of_shows shows
      rw [lineage, shape] at inLineage
      rcases List.mem_append.mp inLineage with isInner | isOuter
      · exact isInner
      · exact absurd shows (notShown _ isOuter)

/-- A channel joins a port from inside its owner only. -/
theorem scope_of_innerEnd
    (formed : model.FormedBy nodes)
    (isPort : port ∈ model.ports)
    {channel : Channel}
    (isChannel : channel ∈ model.channels)
    (isEnd : channel.innerEnd port.direction = port.id) :
    channel.scope = port.owner := by
  obtain ⟨node, isNode, ofNode⟩ := (formed.mem_channels_iff channel).mp isChannel
  rw [Node.scope_of_mem_channels ofNode]
  have sound := formed.sound isNode
  obtain ⟨source, sink, isFlow, sourceId, sinkId⟩ := Node.flow_of_channel ofNode
  obtain ⟨isSource, isSink⟩ := formed.mem_ports_of_flow isNode isFlow
  obtain ⟨sourceOrigin, sinkOrigin⟩ := (formed.apart isNode).distinct.ends_of_flow isFlow
  have directionOfShown : ∀ direction,
      (port ∈ node.members.flatMap fun member => member.ports direction) →
        port.direction = direction := by
    intro direction isShown
    obtain ⟨member, isMember, memberShows⟩ := List.mem_flatMap.mp isShown
    exact (formed.child_of_shown isNode (formed.childrenApart node) isMember memberShows).2.1
  have ownerOfOwn : ∀ direction, port ∈ node.own.ports direction →
      node.program.id = port.owner := by
    intro direction isOwn
    exact (sound.owners port ((Node.mem_own_ports_iff sound direction port).mp isOwn).1).symm
  cases direction : port.direction with
  | input =>
      rw [direction] at isEnd
      cases formed.port_ext isSource isPort (sourceId.symm.trans isEnd)
      rcases sourceOrigin with isOwn | isShown
      · exact ownerOfOwn .input isOwn
      · rw [directionOfShown .output isShown] at direction
        cases direction
  | output =>
      rw [direction] at isEnd
      cases formed.port_ext isSink isPort (sinkId.symm.trans isEnd)
      rcases sinkOrigin with isOwn | isShown
      · exact ownerOfOwn .output isOwn
      · rw [directionOfShown .input isShown] at direction
        cases direction

/-- Channels with one sink have one scope. -/
theorem scope_of_sink
    (formed : model.FormedBy nodes)
    {first second : Channel}
    (isFirst : first ∈ model.channels)
    (isSecond : second ∈ model.channels)
    (sameSink : first.sink = second.sink) :
    first.scope = second.scope := by
  obtain ⟨node, isNode, ofNode⟩ := (formed.mem_channels_iff first).mp isFirst
  obtain ⟨source, sink, isFlow, _, sinkId⟩ := Node.flow_of_channel ofNode
  have isPort := (formed.mem_ports_of_flow isNode isFlow).2
  cases direction : sink.direction with
  | input =>
      have firstEnd : first.outerEnd sink.direction = sink.id := by
        rw [direction]
        exact sinkId
      have secondEnd : second.outerEnd sink.direction = sink.id := by
        rw [direction]
        exact sameSink.symm.trans sinkId
      cases formed.promoted isPort with
      | joined _ _ _ scopes _ =>
          rw [scopes first isFirst firstEnd, scopes second isSecond secondEnd]
      | unjoined isFree _ => exact absurd firstEnd (isFree first isFirst)
  | output =>
      have firstEnd : first.innerEnd sink.direction = sink.id := by
        rw [direction]
        exact sinkId
      have secondEnd : second.innerEnd sink.direction = sink.id := by
        rw [direction]
        exact sameSink.symm.trans sinkId
      rw [formed.scope_of_innerEnd isPort isFirst firstEnd,
        formed.scope_of_innerEnd isPort isSecond secondEnd]

/-- No port is the sink of two channels. -/
theorem nodup_sinks_channels
    (formed : model.FormedBy nodes) :
    (model.channels.map Channel.sink).Nodup := by
  have nodup : model.channels.Nodup := formed.numbered.channels.nodup.of_map
  refine List.Nodup.map_on ?_ nodup
  intro first isFirst second isSecond sameSink
  have sameScope := formed.scope_of_sink isFirst isSecond sameSink
  obtain ⟨node, isNode, ofNode⟩ := (formed.mem_channels_iff first).mp isFirst
  have scope := Node.scope_of_mem_channels ofNode
  have firstInScope := (formed.mem_channelsOf_iff isNode first).mpr ⟨isFirst, scope⟩
  have secondInScope :=
    (formed.mem_channelsOf_iff isNode second).mpr ⟨isSecond, sameScope.symm.trans scope⟩
  exact List.inj_on_of_nodup_map (formed.nodup_sinks isNode) firstInScope secondInScope sameSink

end Model.FormedBy

namespace Model

/--
In a model of a transcript no port is the sink of two channels.  Every port is joined from inside
its owner only, and it is shown from its owner up to the scope whose channels join it from outside,
or up to the top level, once by each of these programs and by no other.
-/
theorem promoted_of_ofTranscript
    {workflow : Option String}
    {transcript : Transcript}
    {model : Model}
    (accepted : ofTranscript workflow transcript = .ok model) :
    (model.channels.map Channel.sink).Nodup ∧
      ∀ port ∈ model.ports,
        model.Ascent port.owner (model.lineage port.owner) ∧
          model.Promoted port ∧
          ∀ channel ∈ model.channels,
            channel.innerEnd port.direction = port.id → channel.scope = port.owner := by
  obtain ⟨nodes, formed⟩ := formedBy_of_ofTranscript accepted
  refine ⟨formed.nodup_sinks_channels, ?_⟩
  intro port isPort
  obtain ⟨owner, isOwner, _, ownerId⟩ := formed.exists_owner isPort
  refine ⟨?_, formed.promoted isPort, fun _ => formed.scope_of_innerEnd isPort⟩
  rw [ownerId]
  exact formed.ascent_lineage isOwner

/-- The ports of a scope with a child and a call, three of which are sinks. -/
theorem promoted_of_ofTranscript_nested :
    ∃ transcript model,
      ofTranscript none transcript = .ok model ∧
        model.channels.map Channel.sink = [1, 3, 4] ∧
        (model.channels.map Channel.sink).Nodup ∧
        ∀ port ∈ model.ports, model.Promoted port := by
  obtain ⟨transcript, model, accepted, _, ends⟩ := exists_accepted
  obtain ⟨nodup, ports⟩ := promoted_of_ofTranscript accepted
  have sinks := congrArg (List.map Prod.snd) ends
  rw [List.map_map] at sinks
  exact ⟨transcript, model, accepted, sinks, nodup, fun port isPort => (ports port isPort).2.1⟩

end Model

end Flowmark
