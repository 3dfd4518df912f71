import Flowmark.Model.Assembly

namespace Flowmark

/-!
# Shifted ports and their wiring

Where the numbers of all ports and programs are raised by constants, the same producers are matched
with the same consumers, and the same artifacts come up in the same order.
-/

/-- By how much the numbers of marks and of each sort of record are raised. -/
structure Shift where
  marks : Nat
  sizes : Sizes
  deriving Repr, DecidableEq

variable (offset : Shift)

/-! ## Ports -/

namespace Port

/-- A port with raised numbers. -/
def shift
    (port : Port) :
    Port :=
  { port with
    id := offset.sizes.ports + port.id
    owner := offset.sizes.programs + port.owner
    mark := offset.marks + port.mark }

/-- Ports with raised numbers are the same only where the ports are. -/
theorem shift_injective
    {first second : Port}
    (same : first.shift offset = second.shift offset) :
    first = second := by
  rcases first with ⟨⟩
  rcases second with ⟨⟩
  simpa [shift] using same

/-- Raising ports raises their numbers. -/
theorem map_id_shift
    (ports : List Port) :
    (ports.map (shift offset)).map Port.id =
      (ports.map Port.id).map (offset.sizes.ports + ·) := by
  rw [List.map_map, List.map_map]
  rfl

end Port

/-! ## Matchings -/

namespace Endpoint

/-- An endpoint whose port has raised numbers. -/
def shift
    (endpoint : Endpoint) :
    Endpoint :=
  { endpoint with port := endpoint.port.shift offset }

/-- Endpoints with raised numbers are the same exactly where the endpoints are. -/
theorem shift_eq_iff
    (first second : Endpoint) :
    first.shift offset = second.shift offset ↔ first = second := by
  constructor
  · intro same
    rcases first with ⟨port, side, synthesized⟩
    rcases second with ⟨port', side', synthesized'⟩
    simp only [shift, mk.injEq] at same
    rw [Port.shift_injective offset same.1, same.2.1, same.2.2]
  · exact congrArg (shift offset)

/-- A producer with raised numbers takes the same consumer, raised. -/
theorem takeFirst?_shift
    (producer : Endpoint)
    (free : List Endpoint) :
    (producer.shift offset).takeFirst? (free.map (shift offset)) =
      (producer.takeFirst? free).map fun (found, left) =>
        (found.shift offset, left.map (shift offset)) := by
  induction free with
  | nil => rfl
  | cons consumer free inductionHypothesis =>
      have sameFeed :
          (producer.shift offset).canFeed (consumer.shift offset) = producer.canFeed consumer :=
        rfl
      rw [List.map_cons, takeFirst?, takeFirst?, sameFeed, inductionHypothesis]
      cases producer.canFeed consumer with
      | true => rfl
      | false => cases producer.takeFirst? free <;> rfl

end Endpoint

namespace Matching

/-- A matching of endpoints whose ports have raised numbers. -/
def shift
    (matching : Matching) :
    Matching where
  pairs := matching.pairs.map fun (producer, consumer) =>
    (producer.shift offset, consumer.shift offset)
  free := matching.free.map (Endpoint.shift offset)

/-- A round among raised endpoints makes the same pairs, raised. -/
theorem round_shift
    (producers free : List Endpoint) :
    round (producers.map (Endpoint.shift offset)) (free.map (Endpoint.shift offset)) =
      (round producers free).shift offset := by
  induction producers generalizing free with
  | nil => rfl
  | cons producer producers inductionHypothesis =>
      rw [List.map_cons, round, round, Endpoint.takeFirst?_shift]
      cases producer.takeFirst? free with
      | none => exact inductionHypothesis free
      | some taken =>
          rcases taken with ⟨consumer, left⟩
          simp only [Option.map_some, inductionHypothesis]
          rfl

/-- All rounds among raised endpoints make the same pairs, raised. -/
theorem rounds_shift
    (producers free : List Endpoint) :
    rounds (producers.map (Endpoint.shift offset)) (free.map (Endpoint.shift offset)) =
      (rounds producers free).shift offset := by
  fun_induction rounds producers free with
  | case1 free first progress others inductionHypothesis =>
      have samePairs : 0 < ((round producers free).shift offset).pairs.length := by
        simpa [shift] using progress
      rw [rounds]
      simp only [round_shift, samePairs, dite_true]
      rw [show ((round producers free).shift offset).free =
        first.free.map (Endpoint.shift offset) from rfl, inductionHypothesis]
      simp [shift, first, others]
  | case2 free first stuck =>
      have samePairs : ¬ 0 < ((round producers free).shift offset).pairs.length := by
        simpa [shift] using stuck
      rw [rounds]
      simp only [round_shift, samePairs, dite_false]
      rfl

/-- A raised producer feeds something exactly where the producer does. -/
theorem feeds_shift
    (matching : Matching)
    (producer : Endpoint) :
    (matching.shift offset).feeds (producer.shift offset) = matching.feeds producer := by
  simp only [feeds, shift, List.any_map, Function.comp_def, Endpoint.shift_eq_iff]

end Matching

/-! ## Inventories -/

namespace Stock

/-- An artifact whose ports have raised numbers. -/
def shift
    (stock : Stock) :
    Stock :=
  { stock with ports := stock.ports.map (offset.sizes.ports + ·) }

/-- Adding a raised port to a raised stock is adding first and raising then. -/
theorem addPort_shift
    (stock : Stock)
    (id : PortId) :
    (stock.shift offset).addPort (offset.sizes.ports + id) = (stock.addPort id).shift offset := by
  by_cases present : id ∈ stock.ports
  · simp [addPort, shift, present]
  · simp [addPort, shift, present]

end Stock

namespace Inventory

/-- An inventory whose ports have raised numbers. -/
def shift
    (inventory : Inventory) :
    Inventory where
  entries := inventory.entries.map fun (key, stock) => (key, stock.shift offset)
  distinct := by
    rw [List.map_map]
    exact inventory.distinct

theorem keys_shift
    (inventory : Inventory) :
    (inventory.shift offset).keys = inventory.keys := by
  rw [OrderedMap.keys, shift, List.map_map]
  rfl

/-- Under each key a raised inventory has the raised stock. -/
theorem get?_shift
    (inventory : Inventory)
    (key : ArtifactKey) :
    (inventory.shift offset).get? key = (inventory.get? key).map (Stock.shift offset) := by
  have looked : ∀ entries : List (ArtifactKey × Stock),
      OrderedMap.lookup? key (entries.map fun (key, stock) => (key, stock.shift offset)) =
        (OrderedMap.lookup? key entries).map (Stock.shift offset) := by
    intro entries
    induction entries with
    | nil => rfl
    | cons entry entries inductionHypothesis =>
        rw [List.map_cons, OrderedMap.lookup?, OrderedMap.lookup?, inductionHypothesis]
        by_cases isKey : entry.1 = key
        · simp [isKey]
        · simp [isKey]
  exact looked inventory.entries

/-- An inventory is determined by its entries. -/
theorem ext_of_entries
    {first second : Inventory}
    (same : first.entries = second.entries) :
    first = second := by
  rcases first with ⟨entries, _⟩
  rcases second with ⟨entries', _⟩
  cases same
  rfl

/-- Storing a raised stock is storing first and raising then. -/
theorem insert_shift
    (inventory : Inventory)
    (key : ArtifactKey)
    (stock : Stock) :
    OrderedMap.insert (inventory.shift offset) key (stock.shift offset) =
      shift offset (OrderedMap.insert inventory key stock) := by
  apply ext_of_entries
  by_cases present : key ∈ inventory.keys
  · have present' : key ∈ (inventory.shift offset).keys := by rwa [keys_shift]
    rw [OrderedMap.insert, dif_pos present', OrderedMap.insert, dif_pos present]
    simp only [shift, OrderedMap.replace, List.map_map]
    apply List.map_congr_left
    intro entry _
    simp only [Function.comp_apply]
    split <;> rfl
  · have absent' : key ∉ (inventory.shift offset).keys := by rwa [keys_shift]
    rw [OrderedMap.insert, dif_neg absent', OrderedMap.insert, dif_neg present]
    simp [shift]

/-- Adding a raised flow is adding first and raising then. -/
theorem addFlow_shift
    (inventory : Inventory)
    (flow : Port × Port) :
    (inventory.shift offset).addFlow (flow.1.shift offset, flow.2.shift offset) =
      (inventory.addFlow flow).shift offset := by
  have sameKey :
      ArtifactKey.ofFlow (flow.1.shift offset) (flow.2.shift offset) =
        ArtifactKey.ofFlow flow.1 flow.2 := rfl
  have sameStock :
      ((inventory.get? (ArtifactKey.ofFlow flow.1 flow.2)).map (Stock.shift offset)).getD
          (Stock.ofFlow (flow.1.shift offset) (flow.2.shift offset)) =
        ((inventory.get? (ArtifactKey.ofFlow flow.1 flow.2)).getD
          (Stock.ofFlow flow.1 flow.2)).shift offset := by
    cases inventory.get? (ArtifactKey.ofFlow flow.1 flow.2) <;> rfl
  simp only [addFlow, sameKey, get?_shift, sameStock]
  rw [← insert_shift, ← Stock.addPort_shift, ← Stock.addPort_shift]
  rfl

/-- Raised flows give the raised inventory. -/
theorem ofFlows_shift
    (flows : List (Port × Port)) :
    ofFlows (flows.map fun (source, sink) => (source.shift offset, sink.shift offset)) =
      (ofFlows flows).shift offset := by
  have folded : ∀ inventory : Inventory,
      (flows.map fun (source, sink) => (source.shift offset, sink.shift offset)).foldl addFlow
          (inventory.shift offset) =
        (flows.foldl addFlow inventory).shift offset := by
    induction flows with
    | nil => exact fun _ => rfl
    | cons flow flows inductionHypothesis =>
        intro inventory
        rw [List.map_cons, List.foldl_cons, List.foldl_cons, addFlow_shift, inductionHypothesis]
  exact folded OrderedMap.empty

end Inventory

/-! ## Wirings -/

/-- A member with raised numbers. -/
def Member.shift
    (member : Member) :
    Member :=
  { member with
    program := offset.sizes.programs + member.program
    inputs := member.inputs.map (Port.shift offset)
    outputs := member.outputs.map (Port.shift offset) }

namespace Interface

/-- An interface whose ports have raised numbers. -/
def shift
    (interface : Interface) :
    Interface where
  inputs := interface.inputs.map (Port.shift offset)
  outputs := interface.outputs.map (Port.shift offset)
  results := interface.results.map (Port.shift offset)

/-- Raised ports make up the raised interface. -/
theorem ofPorts_shift
    (ports : List Port) :
    ofPorts (ports.map (Port.shift offset)) = (ofPorts ports).shift offset := by
  simp only [ofPorts, shift, List.filter_map]
  rfl

theorem allOutputs_shift
    (interface : Interface) :
    (interface.shift offset).allOutputs =
      interface.allOutputs.map (Port.shift offset) := by
  simp only [allOutputs, shift, List.map_append]

theorem all_shift
    (interface : Interface) :
    (interface.shift offset).all = interface.all.map (Port.shift offset) := by
  simp only [all, allOutputs_shift, List.map_append]
  rfl

end Interface

namespace Wiring

/-- A wiring whose ports have raised numbers. -/
def shift
    (wiring : Wiring) :
    Wiring where
  flows := wiring.flows.map fun (source, sink) => (source.shift offset, sink.shift offset)
  interface := wiring.interface.shift offset

variable (own : Interface) (members : List Member)

/-- Raised interfaces have the raised producers. -/
theorem producers_shift :
    producers (own.shift offset) (members.map (Member.shift offset)) =
      (producers own members).map (Endpoint.shift offset) := by
  simp only [producers, List.zipIdx_map, List.flatMap_map, List.map_append, List.map_flatMap,
    Interface.shift, Prod.map_fst, Prod.map_snd, id_eq, Member.shift, List.map_map]
  rfl

/-- Raised interfaces have the raised consumers. -/
theorem consumers_shift :
    consumers (own.shift offset) (members.map (Member.shift offset)) =
      (consumers own members).map (Endpoint.shift offset) := by
  simp only [consumers, List.zipIdx_map, List.flatMap_map, List.map_append, List.map_flatMap,
    Interface.allOutputs_shift, Prod.map_fst, Prod.map_snd, id_eq, Member.shift, List.map_map]
  rfl

/-- A scope of raised interfaces is wired as the scope is, with raised numbers. -/
theorem ofMembers_shift :
    ofMembers (own.shift offset) (members.map (Member.shift offset)) =
      (ofMembers own members).shift offset := by
  have inner : ∀ endpoint : Endpoint, (endpoint.shift offset).isInner = endpoint.isInner :=
    fun _ => rfl
  simp only [ofMembers, producers_shift, consumers_shift, Matching.rounds_shift, List.filter_map,
    Function.comp_def, Matching.feeds_shift, inner]
  simp only [Matching.shift, shift, Interface.shift, List.filter_map, List.map_map,
    List.map_append, Function.comp_def, inner]
  rfl

/-- The inventory of a raised wiring is the raised inventory. -/
theorem inventory_shift
    (wiring : Wiring) :
    (wiring.shift offset).inventory = wiring.inventory.shift offset := by
  rw [inventory, inventory, ← Inventory.ofFlows_shift, List.map_append, List.map_map]
  rw [show (wiring.shift offset).interface = wiring.interface.shift offset from rfl,
    Interface.all_shift, List.map_map]
  rfl

end Wiring

end Flowmark
