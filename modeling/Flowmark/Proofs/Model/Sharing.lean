import Flowmark.Proofs.Model.Channels
import Flowmark.Proofs.Model.Fairness

namespace Flowmark

/-!
# Channels of one binding

The channels of a scope are the pairs that the rounds make of its producers and consumers, and those
of one binding are made as if it were the only one.
-/

/-- The numbers of the ports in a pair of endpoints. -/
def Endpoint.ends
    (pair : Endpoint × Endpoint) :
    PortId × PortId :=
  (pair.1.port.id, pair.2.port.id)

namespace Model

/-- The ports that a scope of a finished model has of its own. -/
def ownInterface
    (model : Model)
    (scope : Program) :
    Interface where
  inputs := model.ownedAmong scope scope.inputs
  outputs := model.ownedAmong scope scope.outputs
  results := model.portsOf scope.results

/-- What a scope of a finished model sees of its children. -/
def membersOf
    (model : Model)
    (scope : Program) :
    List Member :=
  (model.childrenOf scope).map fun child => {
    program := child.id
    synthesized := child.isSynthesized
    inputs := model.portsOf (child.ports .input)
    outputs := model.portsOf (child.ports .output) }

/-- The producers of a scope with a binding. -/
def producersWith
    (model : Model)
    (scope : Program)
    (binding : String) :
    List Endpoint :=
  (Wiring.producers (model.ownInterface scope) (model.membersOf scope)).filter
    (Endpoint.hasBinding binding)

/-- The consumers of a scope with a binding. -/
def consumersWith
    (model : Model)
    (scope : Program)
    (binding : String) :
    List Endpoint :=
  (Wiring.consumers (model.ownInterface scope) (model.membersOf scope)).filter
    (Endpoint.hasBinding binding)

/-- The ends of the channels of a scope whose source has a binding, in order. -/
def joinedWith
    (model : Model)
    (scope : Program)
    (binding : String) :
    List (PortId × PortId) :=
  ((model.channelsOf scope).filter fun channel =>
      (model.port? channel.source).any (·.binding = binding)).map
    fun channel => (channel.source, channel.sink)

/-- The channels of a scope are made binding by binding, and the ports of a binding take turns. -/
structure MatchedFairly
    (model : Model)
    (scope : Program) :
    Prop where
  /-- The rounds on the producers and consumers with one binding make the channels with it. -/
  independent : ∀ binding,
    model.joinedWith scope binding =
      (Matching.rounds (model.producersWith scope binding)
        (model.consumersWith scope binding)).pairs.map Endpoint.ends
  /-- Where every producer is eligible for every consumer, each feeds the next one in turn. -/
  turns : ∀ binding,
    (∀ producer ∈ model.producersWith scope binding,
      ∀ consumer ∈ model.consumersWith scope binding,
        producer.side ≠ consumer.side ∧
          ¬ (producer.synthesized = true ∧ consumer.synthesized = true)) →
      ∀ position : Nat,
        (model.joinedWith scope binding)[position]? =
          (model.consumersWith scope binding)[position]?.bind fun consumer =>
            (model.producersWith scope binding)[
                position % (model.producersWith scope binding).length]?.map
              fun producer => Endpoint.ends (producer, consumer)
  /-- The sinks of one source come in the order of all consumers. -/
  ordered : ∀ source : PortId,
    (((model.channelsOf scope).filter (·.source = source)).map Channel.sink).Sublist
      ((Wiring.consumers (model.ownInterface scope) (model.membersOf scope)).map
        (·.port.id))
  distinct : ((Wiring.consumers (model.ownInterface scope) (model.membersOf scope)).map
    (·.port.id)).Nodup

namespace FormedBy

variable {model : Model} {nodes : List Node} {node : Node}

/-- The own ports found in a finished model are those of the node. -/
theorem ownInterface_eq
    (formed : model.FormedBy nodes)
    (isNode : node ∈ nodes) :
    model.ownInterface node.program = node.own := by
  have sound := formed.sound isNode
  have shown := (formed.apart isNode).shown
  have results : model.portsOf node.program.results = node.own.results := by
    rw [sound.results]
    exact formed.portsOf_map_id fun port isResult =>
      (shown .output port (List.mem_append_right _ isResult)).1
  rw [ownInterface, formed.ownedAmong_inputs isNode, formed.ownedAmong_outputs isNode, results]

/-- The children found in a finished model are seen as the members of the node. -/
theorem membersOf_eq
    (formed : model.FormedBy nodes)
    (isNode : node ∈ nodes) :
    model.membersOf node.program = node.members := by
  obtain ⟨children, areChildren, shape, found, _⟩ := formed.exists_children isNode
  rw [membersOf, found, List.map_map, ← shape]
  apply List.map_congr_left
  intro child isChild
  have isChildNode := (areChildren child isChild).1
  simp only [Function.comp_apply, formed.portsOf_ports isChildNode]
  rfl

/-- The ends of the channels that pass a test are those of the pairs that pass it. -/
theorem map_ends_filter
    (formed : model.FormedBy nodes)
    (isNode : node ∈ nodes)
    (test : PortId × PortId → Bool) :
    ((model.channelsOf node.program).filter fun channel =>
        test (channel.source, channel.sink)).map (fun channel => (channel.source, channel.sink)) =
      ((Wiring.matching node.own node.members).pairs.filter fun pair =>
        test (Endpoint.ends pair)).map Endpoint.ends := by
  have ends : node.channels.map (fun channel => (channel.source, channel.sink)) =
      (Wiring.matching node.own node.members).pairs.map Endpoint.ends := by
    rw [node.map_ends_channels]
    exact List.map_map
  rw [formed.channelsOf_eq isNode]
  calc
    (node.channels.filter fun channel => test (channel.source, channel.sink)).map
          (fun channel => (channel.source, channel.sink)) =
        (node.channels.map fun channel => (channel.source, channel.sink)).filter test :=
      List.filter_map.symm
    _ = ((Wiring.matching node.own node.members).pairs.filter fun pair =>
          test (Endpoint.ends pair)).map Endpoint.ends := by
      rw [ends, List.filter_map]
      rfl

/-- A pair of a matching joins ports of the model. -/
theorem ports_of_pair
    (formed : model.FormedBy nodes)
    (isNode : node ∈ nodes)
    {pair : Endpoint × Endpoint}
    (isPair : pair ∈ (Wiring.matching node.own node.members).pairs) :
    pair.1 ∈ Wiring.producers node.own node.members ∧
      pair.1.port ∈ model.ports ∧
      pair.2.port ∈ model.ports := by
  have isProducer := ((formed.apart isNode).distinct.matching_sound.1.pairs _ _ isPair).1
  have isFlow : (pair.1.port, pair.2.port) ∈ node.wiring.flows :=
    List.mem_map.mpr ⟨pair, isPair, rfl⟩
  exact ⟨isProducer, formed.mem_ports_of_flow isNode isFlow⟩

/-- The channels with a binding are what the rounds make of the endpoints with it. -/
theorem joinedWith_eq
    (formed : model.FormedBy nodes)
    (isNode : node ∈ nodes)
    (binding : String) :
    model.joinedWith node.program binding =
      (Matching.rounds (model.producersWith node.program binding)
        (model.consumersWith node.program binding)).pairs.map Endpoint.ends := by
  rw [producersWith, consumersWith, formed.ownInterface_eq isNode, formed.membersOf_eq isNode,
    Matching.rounds_filter (Endpoint.respects_hasBinding binding), joinedWith,
    formed.map_ends_filter isNode fun ends => (model.port? ends.1).any (·.binding = binding)]
  refine congrArg (List.map Endpoint.ends) (List.filter_congr ?_)
  intro pair isPair
  have isPort := (formed.ports_of_pair isNode isPair).2.1
  rw [Endpoint.ends, formed.port?_of_mem isPort]
  rfl

/-- The sinks of a source are those that one producer feeds, so they are in order. -/
theorem ordered_sinks
    (formed : model.FormedBy nodes)
    (isNode : node ∈ nodes)
    (source : PortId) :
    (((model.channelsOf node.program).filter (·.source = source)).map Channel.sink).Sublist
      ((Wiring.consumers node.own node.members).map (·.port.id)) := by
  have sinks :
      ((model.channelsOf node.program).filter (·.source = source)).map Channel.sink =
        (((Wiring.matching node.own node.members).pairs.filter fun pair =>
          pair.1.port.id = source).map Prod.snd).map (·.port.id) := by
    have ends := congrArg (List.map Prod.snd)
      (formed.map_ends_filter isNode fun ends => ends.1 = source)
    rw [List.map_map, List.map_map] at ends
    rw [List.map_map]
    exact ends
  rw [sinks]
  refine List.Sublist.map _ ?_
  cases fed : (Wiring.matching node.own node.members).pairs.filter fun pair =>
      pair.1.port.id = source with
  | nil => exact List.nil_sublist _
  | cons first others =>
      have isFirst : first ∈ (Wiring.matching node.own node.members).pairs.filter fun pair =>
          pair.1.port.id = source := fed ▸ List.mem_cons_self
      obtain ⟨isPair, isSource⟩ := List.mem_filter.mp isFirst
      obtain ⟨isProducer, isPort, _⟩ := formed.ports_of_pair isNode isPair
      rw [decide_eq_true_eq] at isSource
      -- Ports tell producers apart, so the pairs of a source are those of one producer.
      have sameProducer :
          ((Wiring.matching node.own node.members).pairs.filter fun pair =>
              pair.1.port.id = source) =
            (Wiring.matching node.own node.members).pairs.filter fun pair =>
              pair.1 = first.1 := by
        apply List.filter_congr
        intro pair isOther
        obtain ⟨isOtherProducer, isOtherPort, _⟩ := formed.ports_of_pair isNode isOther
        rw [decide_eq_decide, ← isSource]
        constructor
        · intro sameId
          exact (formed.apart isNode).distinct.producer_ext isOtherProducer isProducer
            (formed.port_ext isOtherPort isPort sameId)
        · rintro same
          rw [same]
      rw [← fed, sameProducer]
      exact (Matching.sublist_rounds first.1 _ _).trans List.filter_sublist

/-- No number of a port is that of two consumers. -/
theorem nodup_consumer_ids
    (formed : model.FormedBy nodes)
    (isNode : node ∈ nodes) :
    ((Wiring.consumers node.own node.members).map (·.port.id)).Nodup := by
  have nodup := (formed.apart isNode).distinct.consumers
  rw [← Wiring.map_port_consumers] at nodup
  refine List.Nodup.map_on ?_ nodup.of_map
  intro first isFirst second isSecond sameId
  exact (formed.apart isNode).distinct.consumer_ext isFirst isSecond
    (formed.port_ext
      (formed.mem_ports_of_origin isNode (formed.origin_of_consumer isNode isFirst))
      (formed.mem_ports_of_origin isNode (formed.origin_of_consumer isNode isSecond)) sameId)

/-- Every scope of a formed model is matched fairly. -/
theorem matchedFairly
    (formed : model.FormedBy nodes)
    (isNode : node ∈ nodes) :
    model.MatchedFairly node.program where
  independent := formed.joinedWith_eq isNode
  turns := by
    intro binding eligible position
    have feeds : ∀ producer ∈ model.producersWith node.program binding,
        ∀ consumer ∈ model.consumersWith node.program binding,
          producer.canFeed consumer = true := by
      intro producer isProducer consumer isConsumer
      obtain ⟨otherSide, notBoth⟩ := eligible producer isProducer consumer isConsumer
      have producerBinding := of_decide_eq_true (List.mem_filter.mp isProducer).2
      have consumerBinding := of_decide_eq_true (List.mem_filter.mp isConsumer).2
      exact (Endpoint.canFeed_iff producer consumer).mpr
        ⟨otherSide, notBoth, producerBinding.trans consumerBinding.symm⟩
    rw [formed.joinedWith_eq isNode, List.getElem?_map, Matching.rounds_of_canFeed feeds]
    cases (model.consumersWith node.program binding)[position]? with
    | none => rfl
    | some consumer => rw [Option.bind_some, Option.bind_some, Option.map_map]; rfl
  ordered := by
    rw [formed.ownInterface_eq isNode, formed.membersOf_eq isNode]
    exact formed.ordered_sinks isNode
  distinct := by
    rw [formed.ownInterface_eq isNode, formed.membersOf_eq isNode]
    exact formed.nodup_consumer_ids isNode

end FormedBy

/--
In a model of a transcript, the channels with one binding are what the rounds make of the producers
and consumers with this binding alone.  Where all of these are eligible for one another the
producers take turns, and the sinks of each source are in the order of the consumers.
-/
theorem matchedFairly_of_ofTranscript
    {workflow : Option String}
    {transcript : Transcript}
    {model : Model}
    (accepted : ofTranscript workflow transcript = .ok model)
    {scope : Program}
    (isProgram : scope ∈ model.programs) :
    model.MatchedFairly scope := by
  obtain ⟨nodes, formed⟩ := formedBy_of_ofTranscript accepted
  obtain ⟨node, isNode, rfl⟩ := formed.node_of_mem isProgram
  exact formed.matchedFairly isNode

/-- Two producers take turns at three consumers, beside a channel with another binding. -/
theorem exists_accepted_shared :
    ∃ transcript model,
      ofTranscript none transcript = .ok model ∧
        (model.program? 0).map (fun scope =>
            (model.joinedWith scope "d", model.joinedWith scope "e")) =
          some ([(0, 3), (1, 4), (0, 6)], [(2, 5)]) := by
  let entry : Tag × String → Entry := fun (tag, name) =>
    ⟨default, tag, tag.keyword, name, .identifier, none, none⟩
  refine ⟨Transcript.ofEntries ([(.begin, "s"), (.begin, "p"), (.output, "d"), (.finish, "p"),
    (.begin, "q"), (.output, "d"), (.output, "e"), (.finish, "q"), (.input, "d"), (.call, "f"),
    (.input, "d"), (.input, "e"), (.call, "g"), (.input, "d"), (.call, "h"),
    (.finish, "s")].map entry), exists_of_toOption_map ?_⟩
  decide +kernel

/-- The ends of the channels in that scope. -/
theorem matchedFairly_of_ofTranscript_shared :
    ∃ transcript model scope,
      ofTranscript none transcript = .ok model ∧
        scope ∈ model.programs ∧
        model.joinedWith scope "d" = [(0, 3), (1, 4), (0, 6)] ∧
        model.joinedWith scope "e" = [(2, 5)] ∧
        model.MatchedFairly scope := by
  obtain ⟨transcript, model, accepted, shared⟩ := exists_accepted_shared
  obtain ⟨scope, found, joined⟩ := Option.map_eq_some_iff.mp shared
  obtain ⟨withD, withE⟩ := Prod.mk.inj joined
  have isProgram := List.mem_of_getElem? found
  exact ⟨transcript, model, scope, accepted, isProgram, withD, withE,
    matchedFairly_of_ofTranscript accepted isProgram⟩

end Model

end Flowmark
