import Flowmark.Model.Assembly
import Flowmark.Proofs.Model.Matching
import Mathlib.Data.List.Nodup

namespace Flowmark

/-!
# Wirings

What closing a scope makes of its own ports and its members, said of ports alone.  The ports must
be told apart by more than their position among the endpoints, which the tree of programs grants.
-/

/-- The ports of one direction that an interface has. -/
def Interface.ports
    (interface : Interface) :
    Direction → List Port
  | .input => interface.inputs
  | .output => interface.allOutputs

/-- The ports of one direction that are seen of a member. -/
def Member.ports
    (member : Member) :
    Direction → List Port
  | .input => member.inputs
  | .output => member.outputs

namespace Wiring

variable {own : Interface} {members : List Member}

/-- The ends of the flows at which a port of a direction is joined from outside its program. -/
def outerEnds
    (wiring : Wiring) :
    Direction → List Port
  | .input => wiring.flows.map Prod.snd
  | .output => wiring.flows.map Prod.fst

/-- The endpoints that the members of a scope contribute, given the ports to be seen of each. -/
def innerEndpoints
    (ports : Member → List Port)
    (members : List Member) :
    List Endpoint :=
  members.zipIdx.flatMap fun (member, position) =>
    (ports member).map fun port => ⟨port, .child position, member.synthesized⟩

/-- The endpoints that a scope contributes itself. -/
def ownEndpoints
    (ports : List Port) :
    List Endpoint :=
  ports.map fun port => ⟨port, .own, false⟩

/-- The producers of a scope are its own inputs and then the outputs of its members. -/
theorem producers_eq
    (own : Interface)
    (members : List Member) :
    producers own members = ownEndpoints own.inputs ++ innerEndpoints Member.outputs members :=
  rfl

/-- The consumers of a scope are the inputs of its members and then all outputs of its own. -/
theorem consumers_eq
    (own : Interface)
    (members : List Member) :
    consumers own members =
      innerEndpoints Member.inputs members ++ ownEndpoints own.allOutputs :=
  rfl

/-- Numbering the entries of a list changes nothing that does not look at the numbers. -/
theorem flatMap_zipIdx
    {α β : Type}
    (f : α → List β)
    (items : List α) :
    (items.zipIdx.flatMap fun entry => f entry.1) = items.flatMap f := by
  rw [← List.flatMap_map Prod.fst f, List.zipIdx_map_fst]

@[simp] theorem map_port_innerEndpoints
    (ports : Member → List Port)
    (members : List Member) :
    (innerEndpoints ports members).map Endpoint.port = members.flatMap ports := by
  simp only [innerEndpoints, List.map_flatMap, List.map_map, Function.comp_def, List.map_id']
  rw [flatMap_zipIdx]

@[simp] theorem map_port_ownEndpoints
    (ports : List Port) :
    (ownEndpoints ports).map Endpoint.port = ports := by
  simp [ownEndpoints, Function.comp_def]

/-- What the members contribute is all inner. -/
@[simp] theorem filter_isInner_innerEndpoints
    (ports : Member → List Port)
    (members : List Member) :
    (innerEndpoints ports members).filter Endpoint.isInner = innerEndpoints ports members := by
  rw [List.filter_eq_self]
  simp only [innerEndpoints, List.mem_flatMap, List.mem_map]
  rintro _ ⟨_, _, _, _, rfl⟩
  rfl

/-- Nothing of what a scope contributes itself is inner. -/
@[simp] theorem filter_isInner_ownEndpoints
    (ports : List Port) :
    (ownEndpoints ports).filter Endpoint.isInner = [] := by
  simp [ownEndpoints, List.filter_eq_nil_iff, Endpoint.isInner]

/-- The ports that produce are the own inputs and the outputs of the members. -/
theorem map_port_producers
    (own : Interface)
    (members : List Member) :
    (producers own members).map Endpoint.port =
      own.inputs ++ members.flatMap Member.outputs := by
  simp [producers_eq]

/-- The ports that consume are the inputs of the members and all own outputs. -/
theorem map_port_consumers
    (own : Interface)
    (members : List Member) :
    (consumers own members).map Endpoint.port =
      members.flatMap Member.inputs ++ own.allOutputs := by
  simp [consumers_eq]

/-- No port is a producer twice or a consumer twice. -/
structure Distinct
    (own : Interface)
    (members : List Member) :
    Prop where
  producers : (own.inputs ++ members.flatMap Member.outputs).Nodup
  consumers : (members.flatMap Member.inputs ++ own.allOutputs).Nodup

/-- Where ports are distinct, a producer is told by its port. -/
theorem Distinct.producer_ext
    (distinct : Distinct own members)
    {first second : Endpoint}
    (isFirst : first ∈ Wiring.producers own members)
    (isSecond : second ∈ Wiring.producers own members)
    (samePort : first.port = second.port) :
    first = second := by
  have nodup := distinct.producers
  rw [← map_port_producers] at nodup
  exact List.inj_on_of_nodup_map nodup isFirst isSecond samePort

/-- Where ports are distinct, a consumer is told by its port. -/
theorem Distinct.consumer_ext
    (distinct : Distinct own members)
    {first second : Endpoint}
    (isFirst : first ∈ Wiring.consumers own members)
    (isSecond : second ∈ Wiring.consumers own members)
    (samePort : first.port = second.port) :
    first = second := by
  have nodup := distinct.consumers
  rw [← map_port_consumers] at nodup
  exact List.inj_on_of_nodup_map nodup isFirst isSecond samePort

/-- The matching of the endpoints of a scope. -/
def matching
    (own : Interface)
    (members : List Member) :
    Matching :=
  Matching.rounds (producers own members) (consumers own members)

/-- Where ports are distinct, the matching of a scope is sound and cannot be extended. -/
theorem Distinct.matching_sound
    (distinct : Distinct own members) :
    Matching.Sound (Wiring.producers own members) (Wiring.consumers own members)
        (matching own members) ∧
      ∀ producer ∈ Wiring.producers own members, ∀ consumer ∈ (matching own members).free,
        producer.canFeed consumer = false := by
  have nodup := distinct.consumers
  rw [← map_port_consumers] at nodup
  exact Matching.rounds_sound _ nodup.of_map

/-- Every flow leads from a producer to a consumer that it can feed. -/
theorem Distinct.flow
    (distinct : Distinct own members)
    {source sink : Port}
    (isFlow : (source, sink) ∈ (ofMembers own members).flows) :
    ∃ producer ∈ Wiring.producers own members, ∃ consumer ∈ Wiring.consumers own members,
      producer.port = source ∧ consumer.port = sink ∧ producer.canFeed consumer = true := by
  obtain ⟨⟨producer, consumer⟩, inPairs, isPair⟩ := List.mem_map.mp isFlow
  cases isPair
  obtain ⟨isProducer, isConsumer, feeds⟩ :=
    distinct.matching_sound.1.pairs producer consumer inPairs
  exact ⟨producer, isProducer, consumer, isConsumer, rfl, rfl, feeds⟩

/-- A flow leads from an own input or from what a member shows, and it leads to an own output or
into a member. -/
theorem Distinct.ends_of_flow
    (distinct : Distinct own members)
    {source sink : Port}
    (isFlow : (source, sink) ∈ (ofMembers own members).flows) :
    (source ∈ own.ports .input ∨ source ∈ members.flatMap fun member => member.ports .output) ∧
      (sink ∈ own.ports .output ∨ sink ∈ members.flatMap fun member => member.ports .input) := by
  obtain ⟨producer, isProducer, consumer, isConsumer, rfl, rfl, _⟩ := distinct.flow isFlow
  have isSource : producer.port ∈ (Wiring.producers own members).map Endpoint.port :=
    List.mem_map_of_mem isProducer
  have isSink : consumer.port ∈ (Wiring.consumers own members).map Endpoint.port :=
    List.mem_map_of_mem isConsumer
  rw [map_port_producers] at isSource
  rw [map_port_consumers] at isSink
  exact ⟨List.mem_append.mp isSource, (List.mem_append.mp isSink).symm⟩

/-- The sinks of flows are the ports of the matched consumers. -/
theorem map_sink_flows
    (own : Interface)
    (members : List Member) :
    (ofMembers own members).flows.map Prod.snd =
      (matching own members).sinks.map Endpoint.port := by
  simp [ofMembers, matching, Matching.sinks]

/-- No two flows of a scope lead to one port. -/
theorem Distinct.nodup_sinks
    (distinct : Distinct own members) :
    ((ofMembers own members).flows.map Prod.snd).Nodup := by
  obtain ⟨sound, _⟩ := distinct.matching_sound
  rw [map_sink_flows]
  apply List.Nodup.map_on _ sound.once
  intro first isFirst second isSecond samePort
  exact distinct.consumer_ext (sound.sink_mem isFirst) (sound.sink_mem isSecond) samePort

/-- A consumer is matched exactly where a flow leads to its port. -/
theorem Distinct.isSink_iff
    (distinct : Distinct own members)
    {consumer : Endpoint}
    (isConsumer : consumer ∈ Wiring.consumers own members) :
    consumer.port ∈ (ofMembers own members).flows.map Prod.snd ↔
      consumer ∈ (matching own members).sinks := by
  obtain ⟨sound, _⟩ := distinct.matching_sound
  rw [map_sink_flows]
  constructor
  · intro isSink
    obtain ⟨other, otherIsSink, samePort⟩ := List.mem_map.mp isSink
    rwa [← distinct.consumer_ext (sound.sink_mem otherIsSink) isConsumer samePort]
  · exact List.mem_map_of_mem

/-- A consumer is fed exactly where some producer can feed it. -/
theorem Distinct.isFed_iff
    (distinct : Distinct own members)
    {consumer : Endpoint}
    (isConsumer : consumer ∈ Wiring.consumers own members) :
    consumer.port ∈ (ofMembers own members).flows.map Prod.snd ↔
      ∃ producer ∈ Wiring.producers own members, producer.canFeed consumer = true := by
  obtain ⟨sound, maximal⟩ := distinct.matching_sound
  rw [distinct.isSink_iff isConsumer]
  constructor
  · intro isSink
    obtain ⟨⟨producer, _⟩, inPairs, rfl⟩ := List.mem_map.mp isSink
    obtain ⟨isProducer, _, feeds⟩ := sound.pairs producer _ inPairs
    exact ⟨producer, isProducer, feeds⟩
  · rintro ⟨producer, isProducer, feeds⟩
    by_contra unmatched
    have isFree : consumer ∈ (matching own members).free := by
      rw [sound.free]
      exact List.mem_filter.mpr ⟨isConsumer, by simpa using unmatched⟩
    rw [maximal producer isProducer consumer isFree] at feeds
    cases feeds

/-- An input of a member that nothing feeds has no binding of an own input. -/
theorem Distinct.binding_ne_of_unfed
    (distinct : Distinct own members)
    {port ownPort : Port}
    (isShown : port ∈ members.flatMap Member.inputs)
    (unfed : port ∉ (ofMembers own members).flows.map Prod.snd)
    (isOwn : ownPort ∈ own.inputs) :
    port.binding ≠ ownPort.binding := by
  intro sameBinding
  rw [← map_port_innerEndpoints] at isShown
  obtain ⟨consumer, isInner, rfl⟩ := List.mem_map.mp isShown
  have isConsumer : consumer ∈ Wiring.consumers own members :=
    List.mem_append_left _ isInner
  obtain ⟨⟨member, position⟩, _, inMember⟩ := List.mem_flatMap.mp isInner
  obtain ⟨_, _, rfl⟩ := List.mem_map.mp inMember
  refine unfed ((distinct.isFed_iff isConsumer).mpr ⟨⟨ownPort, .own, false⟩, ?_, ?_⟩)
  · exact List.mem_append_left _ (List.mem_map_of_mem isOwn)
  · simpa [Endpoint.canFeed] using sameBinding.symm

/-- A producer is matched exactly where a flow starts at its port. -/
theorem Distinct.feeds_iff
    (distinct : Distinct own members)
    {producer : Endpoint}
    (isProducer : producer ∈ Wiring.producers own members) :
    (matching own members).feeds producer = true ↔
      producer.port ∈ (ofMembers own members).flows.map Prod.fst := by
  simp only [Matching.feeds, List.any_eq_true, decide_eq_true_eq]
  constructor
  · rintro ⟨pair, inPairs, rfl⟩
    exact List.mem_map_of_mem (List.mem_map_of_mem inPairs)
  · intro isSource
    obtain ⟨_, isFlow, samePort⟩ := List.mem_map.mp isSource
    obtain ⟨⟨other, consumer⟩, inPairs, rfl⟩ := List.mem_map.mp isFlow
    have isOther := (distinct.matching_sound.1.pairs other consumer inPairs).1
    exact ⟨(other, consumer), inPairs, distinct.producer_ext isOther isProducer samePort⟩

/-- The inputs of a scope are its own, then those of its members that nothing feeds. -/
theorem Distinct.interface_inputs
    (distinct : Distinct own members) :
    (ofMembers own members).interface.inputs =
      own.inputs ++ (members.flatMap Member.inputs).filter fun port =>
        port ∉ (ofMembers own members).flows.map Prod.snd := by
  have unfed :
      (matching own members).free.filter Endpoint.isInner =
        ((Wiring.consumers own members).filter Endpoint.isInner).filter fun consumer =>
          consumer.port ∉ (ofMembers own members).flows.map Prod.snd := by
    rw [distinct.matching_sound.1.free, List.filter_filter, List.filter_filter]
    apply List.filter_congr
    intro consumer isConsumer
    rw [Bool.and_comm]
    simp only [distinct.isSink_iff isConsumer]
  change own.inputs ++ ((matching own members).free.filter Endpoint.isInner).map Endpoint.port = _
  rw [unfed, consumers_eq, ← map_port_innerEndpoints, List.filter_map]
  simp [Function.comp_def]

/-- The outputs of a scope are its own, then those of its members that feed nothing. -/
theorem Distinct.interface_outputs
    (distinct : Distinct own members) :
    (ofMembers own members).interface.outputs =
      own.outputs ++ (members.flatMap Member.outputs).filter fun port =>
        port ∉ (ofMembers own members).flows.map Prod.fst := by
  have unused :
      ((Wiring.producers own members).filter fun producer =>
          producer.isInner && !(matching own members).feeds producer) =
        ((Wiring.producers own members).filter Endpoint.isInner).filter fun producer =>
          producer.port ∉ (ofMembers own members).flows.map Prod.fst := by
    rw [List.filter_filter]
    apply List.filter_congr
    intro producer isProducer
    rw [Bool.and_comm, decide_not]
    simp only [← distinct.feeds_iff isProducer, Bool.decide_eq_true]
  change own.outputs ++ ((Wiring.producers own members).filter fun producer =>
    producer.isInner && !(matching own members).feeds producer).map Endpoint.port = _
  rw [unused, producers_eq, ← map_port_innerEndpoints, List.filter_map]
  simp [Function.comp_def]

/-- The results of a scope are its own, whatever its members show. -/
theorem interface_results
    (own : Interface)
    (members : List Member) :
    (ofMembers own members).interface.results = own.results :=
  rfl

/-- A scope shows its own ports and those of its members that no flow joins. -/
theorem Distinct.mem_ports_iff
    (distinct : Distinct own members)
    (direction : Direction)
    (port : Port) :
    port ∈ (ofMembers own members).interface.ports direction ↔
      port ∈ own.ports direction ∨
        (∃ member ∈ members, port ∈ member.ports direction) ∧
          port ∉ (ofMembers own members).outerEnds direction := by
  cases direction with
  | input =>
      change port ∈ (ofMembers own members).interface.inputs ↔ _
      rw [distinct.interface_inputs, List.mem_append, List.mem_filter, List.mem_flatMap,
        decide_eq_true_eq]
      rfl
  | output =>
      change port ∈ (ofMembers own members).interface.outputs ++ own.results ↔ _
      rw [distinct.interface_outputs, List.mem_append, List.mem_append, List.mem_filter,
        List.mem_flatMap, decide_eq_true_eq, or_right_comm, ← List.mem_append]
      rfl

/-- A scope shows no port twice where its own and those of its members are distinct. -/
theorem Distinct.nodup_ports
    (distinct : Distinct own members)
    {direction : Direction}
    (separate :
      (own.ports direction ++ members.flatMap fun member => member.ports direction).Nodup) :
    ((ofMembers own members).interface.ports direction).Nodup := by
  cases direction with
  | input =>
      change ((ofMembers own members).interface.inputs).Nodup
      rw [distinct.interface_inputs]
      exact separate.sublist ((List.Sublist.refl _).append List.filter_sublist)
  | output =>
      change ((ofMembers own members).interface.outputs ++ own.results).Nodup
      rw [distinct.interface_outputs, List.append_assoc,
        (List.Perm.append_left own.outputs List.perm_append_comm).nodup_iff, ← List.append_assoc]
      exact separate.sublist ((List.Sublist.refl _).append List.filter_sublist)

/-- Without members nothing flows, since no port feeds one of the same side. -/
theorem ofMembers_nil
    (own : Interface) :
    ofMembers own [] =
      { flows := []
        interface := own } := by
  have producersShape : producers own [] = ownEndpoints own.inputs := List.append_nil _
  have consumersShape : consumers own [] = ownEndpoints own.allOutputs := rfl
  have sameSide : ∀ producer ∈ ownEndpoints own.inputs, ∀ consumer ∈ ownEndpoints own.allOutputs,
      producer.canFeed consumer = false := by
    intro producer isProducer consumer isConsumer
    obtain ⟨_, _, rfl⟩ := List.mem_map.mp isProducer
    obtain ⟨_, _, rfl⟩ := List.mem_map.mp isConsumer
    simp [Endpoint.canFeed]
  simp only [ofMembers, producersShape, consumersShape, Matching.rounds_of_not_canFeed sameSide]
  simp [Matching.feeds]

end Wiring

end Flowmark
