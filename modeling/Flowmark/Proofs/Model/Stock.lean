import Flowmark.Proofs.Model.Inventory
import Mathlib.Data.List.Induction
import Mathlib.Data.List.Nodup

namespace Flowmark

/-!
# Stocks of flows

An inventory keeps the flows of different keys apart: what is stored under a key is made by the
flows with this key alone.  So every artifact is known by its own name and URI, and it has the ends
of exactly those flows that are known in the same way.
-/

namespace ArtifactKey

/-- By what an artifact with a name and perhaps a URI is known. -/
def known
    (name : String)
    (uri : Option String) :
    ArtifactKey :=
  match uri with
  | some place => .uri place
  | none => .binding name

/-- A flow is known by the binding of its source and by its URI. -/
theorem ofFlow_eq_known
    (source sink : Port) :
    ofFlow source sink = known source.binding (flowUri source sink) :=
  rfl

/-- Artifacts are known alike where they have one URI, or no URI and one name. -/
theorem known_eq_iff
    (first second : String)
    (firstUri secondUri : Option String) :
    known first firstUri = known second secondUri ↔
      firstUri = secondUri ∧ (firstUri = none → first = second) := by
  cases firstUri <;> cases secondUri <;> simp [known]

end ArtifactKey

namespace Stock

/-- By what a stock is known. -/
def key
    (stock : Stock) :
    ArtifactKey :=
  .known stock.name stock.uri

@[simp] theorem name_addPort
    (stock : Stock)
    (id : PortId) :
    (stock.addPort id).name = stock.name := by
  unfold addPort
  split <;> rfl

@[simp] theorem uri_addPort
    (stock : Stock)
    (id : PortId) :
    (stock.addPort id).uri = stock.uri := by
  unfold addPort
  split <;> rfl

/-- A stock with a further port has its ports and that one. -/
theorem mem_ports_addPort
    {stock : Stock}
    {id other : PortId} :
    other ∈ (stock.addPort id).ports ↔ other ∈ stock.ports ∨ other = id := by
  unfold addPort
  split
  · rename_i isOld
    exact (or_iff_left_of_imp fun same => same ▸ isOld).symm
  · rw [List.mem_append, List.mem_singleton]

/-- A further port is not entered twice. -/
theorem nodup_addPort
    {stock : Stock}
    (nodup : stock.ports.Nodup)
    (id : PortId) :
    (stock.addPort id).ports.Nodup := by
  unfold addPort
  split
  · exact nodup
  · rename_i isNew
    exact List.Nodup.append nodup (List.nodup_singleton id)
      (List.disjoint_singleton.mpr isNew)

/-- The first port of a stock stays the first. -/
theorem head?_addPort
    (stock : Stock)
    (id : PortId) :
    (stock.addPort id).ports.head? = some (stock.ports.head?.getD id) := by
  unfold addPort
  split
  · rename_i isOld
    obtain ⟨first, rest, shape⟩ := List.exists_cons_of_ne_nil (List.ne_nil_of_mem isOld)
    rw [shape]
    rfl
  · cases stock.ports <;> rfl

/-- A stock with both ends of one more flow; the first flow makes the stock. -/
def join
    (stock? : Option Stock)
    (flow : Port × Port) :
    Stock :=
  ((stock?.getD (.ofFlow flow.1 flow.2)).addPort flow.1.id).addPort flow.2.id

/-- The stock that flows make one after another, none without a flow. -/
def ofFlows
    (flows : List (Port × Port)) :
    Option Stock :=
  flows.foldl (fun stock? flow => some (join stock? flow)) none

/-- One more flow is joined to what the flows before it make. -/
theorem ofFlows_concat
    (flows : List (Port × Port))
    (flow : Port × Port) :
    ofFlows (flows ++ [flow]) = some (join (ofFlows flows) flow) :=
  List.foldl_concat ..

/-- A stock has the name, the URI and the source of the first of its flows at its front, and it has
the ends of all of them once each. -/
structure MadeBy
    (stock : Stock)
    (flows : List (Port × Port)) :
    Prop where
  first : ∃ flow ∈ flows,
    stock.name = flow.1.binding ∧
      stock.uri = ArtifactKey.flowUri flow.1 flow.2 ∧
      stock.ports.head? = some flow.1.id
  mem_ports : ∀ id, id ∈ stock.ports ↔ ∃ flow ∈ flows, id = flow.1.id ∨ id = flow.2.id
  nodup : stock.ports.Nodup

/-- The first flow makes a stock. -/
theorem madeBy_join_none
    (flow : Port × Port) :
    (join none flow).MadeBy [flow] where
  first := by
    refine ⟨flow, List.mem_singleton_self flow, ?_, ?_, ?_⟩
    · simp [join, ofFlow]
    · simp [join, ofFlow]
    · rw [join, head?_addPort, head?_addPort]
      rfl
  mem_ports := by simp [join, mem_ports_addPort, ofFlow]
  nodup := nodup_addPort (nodup_addPort List.nodup_nil _) _

/-- One more flow is joined to the stock of those before it. -/
theorem MadeBy.join
    {stock : Stock}
    {flows : List (Port × Port)}
    (madeBy : stock.MadeBy flows)
    (flow : Port × Port) :
    (join (some stock) flow).MadeBy (flows ++ [flow]) where
  first := by
    obtain ⟨first, isFlow, name, uri, front⟩ := madeBy.first
    refine ⟨first, List.mem_append_left _ isFlow, ?_, ?_, ?_⟩
    · simpa [Stock.join] using name
    · simpa [Stock.join] using uri
    · rw [Stock.join, head?_addPort, head?_addPort, Option.getD_some, Option.getD_some, front]
      rfl
  mem_ports := by
    intro id
    rw [Stock.join, mem_ports_addPort, mem_ports_addPort, Option.getD_some, madeBy.mem_ports]
    simp [or_and_right, exists_or, or_assoc]
  nodup := nodup_addPort (nodup_addPort madeBy.nodup _) _

/-- Flows make a stock if there is one at all. -/
theorem exists_ofFlows
    {flows : List (Port × Port)}
    (nonempty : flows ≠ []) :
    ∃ stock, ofFlows flows = some stock ∧ stock.MadeBy flows := by
  induction flows using List.reverseRecOn with
  | nil => exact absurd rfl nonempty
  | append_singleton flows flow inductionHypothesis =>
      rw [ofFlows_concat]
      refine ⟨_, rfl, ?_⟩
      by_cases isFirst : flows = []
      · subst isFirst
        exact madeBy_join_none flow
      · obtain ⟨stock, made, madeBy⟩ := inductionHypothesis isFirst
        rw [made]
        exact madeBy.join flow

/-- A stock of flows with one key is known by this key. -/
theorem MadeBy.key_eq
    {stock : Stock}
    {flows : List (Port × Port)}
    (madeBy : stock.MadeBy flows)
    {key : ArtifactKey}
    (sameKey : ∀ flow ∈ flows, ArtifactKey.ofFlow flow.1 flow.2 = key) :
    stock.key = key := by
  obtain ⟨flow, isFlow, name, uri, _⟩ := madeBy.first
  rw [Stock.key, name, uri, ← ArtifactKey.ofFlow_eq_known, sameKey flow isFlow]

end Stock

namespace Inventory

/-- The flows with a key, in order. -/
def flowsOf
    (key : ArtifactKey)
    (flows : List (Port × Port)) :
    List (Port × Port) :=
  flows.filter fun flow => ArtifactKey.ofFlow flow.1 flow.2 = key

/-- A flow is stored under its key, joined to what is stored there. -/
theorem addFlow_eq
    (inventory : Inventory)
    (flow : Port × Port) :
    inventory.addFlow flow =
      inventory.insert (ArtifactKey.ofFlow flow.1 flow.2)
        (Stock.join (inventory.get? (ArtifactKey.ofFlow flow.1 flow.2)) flow) :=
  rfl

/-- Under a key is stored what the flows with this key make. -/
theorem get?_ofFlows
    (flows : List (Port × Port))
    (key : ArtifactKey) :
    (ofFlows flows).get? key = Stock.ofFlows (flowsOf key flows) := by
  -- Flows are added at the end, so the last one is taken off.
  induction flows using List.reverseRecOn with
  | nil => rfl
  | append_singleton flows flow inductionHypothesis =>
      have last : ofFlows (flows ++ [flow]) = (ofFlows flows).addFlow flow :=
        List.foldl_concat ..
      rw [last, addFlow_eq, OrderedMap.get?_insert, flowsOf, List.filter_append]
      split
      · rename_i isKey
        subst isKey
        rw [List.filter_cons_of_pos (by simp), List.filter_nil, Stock.ofFlows_concat,
          inductionHypothesis]
        rfl
      · rename_i isOther
        rw [List.filter_cons_of_neg (by simpa using Ne.symm isOther), List.filter_nil,
          List.append_nil, inductionHypothesis]
        rfl

/-- Every entry of an inventory is made by the flows with its key. -/
theorem madeBy_of_mem
    {flows : List (Port × Port)}
    {entry : ArtifactKey × Stock}
    (isEntry : entry ∈ (ofFlows flows).entries) :
    entry.2.MadeBy (flowsOf entry.1 flows) ∧ entry.2.key = entry.1 := by
  have stored : Stock.ofFlows (flowsOf entry.1 flows) = some entry.2 := by
    rw [← get?_ofFlows, OrderedMap.get?_eq_some_iff]
    exact isEntry
  have nonempty : flowsOf entry.1 flows ≠ [] := by
    intro none
    rw [none] at stored
    cases stored
  obtain ⟨stock, made, madeBy⟩ := Stock.exists_ofFlows nonempty
  rw [stored] at made
  cases made
  exact ⟨madeBy, madeBy.key_eq fun flow isFlow => of_decide_eq_true (List.mem_filter.mp isFlow).2⟩

end Inventory

/-- An artifact without its number. -/
def Artifact.stock
    (artifact : Artifact) :
    Stock where
  name := artifact.name
  uri := artifact.uri
  ports := artifact.ports

namespace Wiring

variable {wiring : Wiring} {scope : ProgramId} {before : Sizes}

/-- What is registered in a scope: its flows, then each port of its interface. -/
def registered
    (wiring : Wiring) :
    List (Port × Port) :=
  wiring.flows ++ wiring.interface.all.map fun port => (port, port)

/-- The artifacts of a scope are known by the keys of its inventory. -/
theorem map_key_artifacts :
    ((wiring.artifacts scope before).map fun artifact => artifact.stock.key) =
      wiring.inventory.keys := by
  rw [artifacts, List.map_map, OrderedMap.keys]
  calc
    wiring.inventory.entries.zipIdx.map _ =
        (wiring.inventory.entries.zipIdx.map Prod.fst).map fun entry => entry.2.key := by
      rw [List.map_map]
      rfl
    _ = wiring.inventory.entries.map fun entry => entry.2.key := by rw [List.zipIdx_map_fst]
    _ = wiring.inventory.entries.map Prod.fst :=
      List.map_congr_left fun entry isEntry => (Inventory.madeBy_of_mem isEntry).2

/-- Artifacts of a scope that are known alike are the same. -/
theorem artifact_ext
    {first second : Artifact}
    (isFirst : first ∈ wiring.artifacts scope before)
    (isSecond : second ∈ wiring.artifacts scope before)
    (sameKey : first.stock.key = second.stock.key) :
    first = second := by
  have distinct := wiring.inventory.distinct
  rw [← OrderedMap.keys, ← map_key_artifacts] at distinct
  exact List.inj_on_of_nodup_map distinct isFirst isSecond sameKey

/-- What is registered has an artifact that is known by it. -/
theorem exists_artifact
    {flow : Port × Port}
    (isRegistered : flow ∈ wiring.registered) :
    ∃ artifact ∈ wiring.artifacts scope before,
      artifact.stock.key = ArtifactKey.ofFlow flow.1 flow.2 := by
  have isKey : ArtifactKey.ofFlow flow.1 flow.2 ∈ wiring.inventory.keys :=
    Inventory.mem_keys_foldl.mpr (Or.inr ⟨flow, isRegistered, rfl⟩)
  rw [← map_key_artifacts] at isKey
  exact List.mem_map.mp isKey

/-- An artifact is made by what is registered in its scope under its key, and it is numbered by the
place of this key. -/
theorem madeBy_of_artifact
    {artifact : Artifact}
    (isArtifact : artifact ∈ wiring.artifacts scope before) :
    artifact.stock.MadeBy (Inventory.flowsOf artifact.stock.key wiring.registered) ∧
      artifact.id = before.artifacts + wiring.inventory.keys.idxOf artifact.stock.key := by
  obtain ⟨⟨entry, position⟩, isEntry, rfl⟩ := List.mem_map.mp isArtifact
  obtain ⟨madeBy, sameKey⟩ := Inventory.madeBy_of_mem (List.fst_mem_of_mem_zipIdx isEntry)
  have atPosition := List.mk_mem_zipIdx_iff_getElem?.mp isEntry
  obtain ⟨inBounds, keyAt⟩ : ∃ inBounds : position < wiring.inventory.keys.length,
      wiring.inventory.keys[position] = entry.1 := by
    rw [← List.getElem?_eq_some_iff, OrderedMap.keys, List.getElem?_map, atPosition]
    rfl
  constructor
  · rw [← sameKey] at madeBy
    exact madeBy
  · change before.artifacts + position = before.artifacts + wiring.inventory.keys.idxOf entry.2.key
    have distinct : wiring.inventory.keys.Nodup := wiring.inventory.distinct
    rw [sameKey, ← keyAt, distinct.idxOf_getElem]

/-- On an artifact are registered the ends of what is known like it. -/
theorem mem_ports_artifact_iff
    {artifact : Artifact}
    (isArtifact : artifact ∈ wiring.artifacts scope before)
    (id : PortId) :
    id ∈ artifact.ports ↔
      ∃ flow ∈ wiring.registered,
        ArtifactKey.ofFlow flow.1 flow.2 = artifact.stock.key ∧
          (id = flow.1.id ∨ id = flow.2.id) := by
  rw [show artifact.ports = artifact.stock.ports from rfl,
    (madeBy_of_artifact isArtifact).1.mem_ports]
  simp [Inventory.flowsOf, and_assoc]

/-- A flow carries the artifact that is known by it. -/
theorem position_eq_iff
    {flow : Port × Port}
    (isRegistered : flow ∈ wiring.registered)
    {artifact : Artifact}
    (isArtifact : artifact ∈ wiring.artifacts scope before) :
    before.artifacts + wiring.inventory.position flow = artifact.id ↔
      ArtifactKey.ofFlow flow.1 flow.2 = artifact.stock.key := by
  rw [(madeBy_of_artifact isArtifact).2, Nat.add_left_cancel_iff, Inventory.position]
  exact List.idxOf_inj (Inventory.mem_keys_foldl.mpr (Or.inr ⟨flow, isRegistered, rfl⟩))

/-- The channels of a scope join the ends of its flows and carry what these are known by. -/
theorem map_carried_channels :
    ((wiring.channels scope before).map fun channel =>
        (channel.source, channel.sink, channel.artifact)) =
      wiring.flows.map fun flow =>
        (flow.1.id, flow.2.id, before.artifacts + wiring.inventory.position flow) := by
  simp only [channels, List.map_map, Function.comp_def]
  rw [← List.zipIdx_map_fst 0 wiring.flows, List.map_map, List.zipIdx_map_fst]
  rfl

end Wiring

end Flowmark
