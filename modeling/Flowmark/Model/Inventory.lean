import Flowmark.Model.Records
import Flowmark.OrderedMap

namespace Flowmark

/-! # Inventories

The inventory of a scope lists the artifacts that flow through its ports.  Two ports that a channel
joins carry one artifact.  An artifact is known by the URI of the source, else of the sink, else by
the binding of the source.
-/

/-- By what an artifact is known within its scope. -/
inductive ArtifactKey where
  | uri (uri : String)
  | binding (binding : String)
  deriving Repr, DecidableEq

namespace ArtifactKey

/-- The URI of what flows from one port to another. -/
def flowUri
    (source sink : Port) :
    Option String :=
  source.uri.or sink.uri

/-- By what the artifact that flows from one port to another is known. -/
def ofFlow
    (source sink : Port) :
    ArtifactKey :=
  match flowUri source sink with
  | some place => .uri place
  | none => .binding source.binding

end ArtifactKey

/-- An artifact before it has a number. -/
structure Stock where
  name : String
  uri : Option String
  ports : List PortId
  deriving Repr, DecidableEq

namespace Stock

/-- The artifact that flows from one port to another, without ports yet. -/
def ofFlow
    (source sink : Port) :
    Stock where
  name := source.binding
  uri := ArtifactKey.flowUri source sink
  ports := []

/-- Register a port on an artifact unless it is there already. -/
def addPort
    (stock : Stock)
    (id : PortId) :
    Stock :=
  if id ∈ stock.ports then stock else { stock with ports := stock.ports ++ [id] }

end Stock

/-- The artifacts of a scope in the order in which they first came up. -/
abbrev Inventory :=
  OrderedMap ArtifactKey Stock

namespace Inventory

/-- Register both ends of a flow on the artifact that it carries. -/
def addFlow
    (inventory : Inventory)
    (flow : Port × Port) :
    Inventory :=
  let key := ArtifactKey.ofFlow flow.1 flow.2
  let stock := (inventory.get? key).getD (Stock.ofFlow flow.1 flow.2)
  inventory.insert key ((stock.addPort flow.1.id).addPort flow.2.id)

/-- The inventory of a list of flows in order. -/
def ofFlows
    (flows : List (Port × Port)) :
    Inventory :=
  flows.foldl addFlow OrderedMap.empty

/-- The place in an inventory of the artifact that a flow carries. -/
def position
    (inventory : Inventory)
    (flow : Port × Port) :
    Nat :=
  inventory.keys.idxOf (ArtifactKey.ofFlow flow.1 flow.2)

end Inventory

end Flowmark
