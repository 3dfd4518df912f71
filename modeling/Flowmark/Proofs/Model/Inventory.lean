import Flowmark.Model.Assembly
import Flowmark.Proofs.OrderedMap

namespace Flowmark

/-!
# Inventories of scopes

An inventory is built flow by flow and lists an artifact for every flow.  So the artifact of a
channel is one of its scope.
-/

namespace Inventory

/-- The keys are those that were there and those of the flows. -/
theorem mem_keys_foldl
    {flows : List (Port × Port)}
    {inventory : Inventory}
    {key : ArtifactKey} :
    key ∈ (flows.foldl addFlow inventory).keys ↔
      key ∈ inventory.keys ∨ ∃ flow ∈ flows, key = ArtifactKey.ofFlow flow.1 flow.2 := by
  induction flows generalizing inventory with
  | nil => simp
  | cons flow flows inductionHypothesis =>
      rw [List.foldl_cons, inductionHypothesis, addFlow, OrderedMap.mem_keys_insert, or_assoc]
      simp

/-- The artifact of a flow has a place in the inventory. -/
theorem position_lt
    {flows : List (Port × Port)}
    {flow : Port × Port}
    (isFlow : flow ∈ flows) :
    (ofFlows flows).position flow < (ofFlows flows).entries.length := by
  have isKey : ArtifactKey.ofFlow flow.1 flow.2 ∈ (ofFlows flows).keys :=
    mem_keys_foldl.mpr (Or.inr ⟨flow, isFlow, rfl⟩)
  simpa [position, OrderedMap.keys] using List.idxOf_lt_length_of_mem isKey

end Inventory

namespace Wiring

variable {wiring : Wiring} {scope : ProgramId} {before : Sizes}

/-- The artifact of a channel is one of the same scope. -/
theorem exists_artifact_of_channel
    {channel : Channel}
    (isChannel : channel ∈ wiring.channels scope before) :
    ∃ artifact ∈ wiring.artifacts scope before, artifact.id = channel.artifact := by
  obtain ⟨⟨flow, position⟩, isEntry, rfl⟩ := List.mem_map.mp isChannel
  have isFlow : flow ∈ wiring.flows := List.fst_mem_of_mem_zipIdx isEntry
  have inBounds : wiring.inventory.position flow < wiring.inventory.entries.length :=
    Inventory.position_lt (List.mem_append_left _ isFlow)
  have isPlace : (wiring.inventory.entries[wiring.inventory.position flow],
      wiring.inventory.position flow) ∈ wiring.inventory.entries.zipIdx :=
    List.mem_zipIdx_iff_getElem?.mpr (List.getElem?_eq_getElem inBounds)
  exact ⟨_, List.mem_map.mpr ⟨_, isPlace, rfl⟩, rfl⟩

end Wiring

end Flowmark
