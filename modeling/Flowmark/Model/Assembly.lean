import Flowmark.Model.Inventory
import Flowmark.Model.Matching
import Flowmark.Outline

namespace Flowmark

/-! # Assembly of a model

The records of a model are made by recursion on the outline.  What a scope contributes depends only
on its own content and on how many records of each sort come before it.  When a scope closes, its
channels are found between its own ports and the interfaces of its children; inputs that stay
unfed and outputs that feed nothing become part of its own interface.
-/

/-- What a scope sees of one of its children. -/
structure Member where
  program : ProgramId
  synthesized : Bool
  inputs : List Port
  outputs : List Port
  deriving Repr, DecidableEq

/-- The ports that a scope has of its own. -/
structure Interface where
  inputs : List Port
  outputs : List Port
  results : List Port
  deriving Repr, DecidableEq

namespace Interface

/-- Sort ports by their part in an interface, each part in order of declaration. -/
def ofPorts
    (ports : List Port) :
    Interface where
  inputs := ports.filter Port.isInput
  outputs := ports.filter Port.isPlainOutput
  results := ports.filter Port.isResult

/-- The outputs, then the results. -/
def allOutputs
    (interface : Interface) :
    List Port :=
  interface.outputs ++ interface.results

/-- All ports: inputs, outputs, results. -/
def all
    (interface : Interface) :
    List Port :=
  interface.inputs ++ interface.allOutputs

end Interface

/-- What is found when a scope closes: the flows between its members, and its final interface. -/
structure Wiring where
  flows : List (Port × Port)
  interface : Interface
  deriving Repr, DecidableEq

namespace Wiring

/-- The producers of a scope: its own inputs, then the outputs of each child. -/
def producers
    (own : Interface)
    (members : List Member) :
    List Endpoint :=
  own.inputs.map (fun port => ⟨port, .own, false⟩) ++
    members.zipIdx.flatMap fun (member, position) =>
      member.outputs.map fun port => ⟨port, .child position, member.synthesized⟩

/-- The consumers of a scope: the inputs of each child, then its own outputs and results. -/
def consumers
    (own : Interface)
    (members : List Member) :
    List Endpoint :=
  (members.zipIdx.flatMap fun (member, position) =>
    member.inputs.map fun port => ⟨port, .child position, member.synthesized⟩) ++
    own.allOutputs.map fun port => ⟨port, .own, false⟩

/-- Match the ports of a scope, and pass on what is left open to its interface. -/
def ofMembers
    (own : Interface)
    (members : List Member) :
    Wiring :=
  let producers := producers own members
  let matching := Matching.rounds producers (consumers own members)
  let unfed := matching.free.filter Endpoint.isInner
  let unused := producers.filter fun producer => producer.isInner && !matching.feeds producer
  { flows := matching.pairs.map fun (producer, consumer) => (producer.port, consumer.port)
    interface := { own with
      inputs := own.inputs ++ unfed.map Endpoint.port
      outputs := own.outputs ++ unused.map Endpoint.port } }

/-- The inventory of a scope: first what its channels carry, then each port of its interface. -/
def inventory
    (wiring : Wiring) :
    Inventory :=
  Inventory.ofFlows (wiring.flows ++ wiring.interface.all.map fun port => (port, port))

/-- The channels of a scope, numbered from the sizes before them. -/
def channels
    (wiring : Wiring)
    (scope : ProgramId)
    (before : Sizes) :
    List Channel :=
  let inventory := wiring.inventory
  wiring.flows.zipIdx.map fun (flow, position) => {
    id := before.channels + position
    scope := scope
    source := flow.1.id
    sink := flow.2.id
    artifact := before.artifacts + inventory.position flow }

/-- The artifacts of a scope, numbered from the sizes before them. -/
def artifacts
    (wiring : Wiring)
    (scope : ProgramId)
    (before : Sizes) :
    List Artifact :=
  wiring.inventory.entries.zipIdx.map fun (entry, position) => {
    id := before.artifacts + position
    scope := scope
    name := entry.2.name
    uri := entry.2.uri
    ports := entry.2.ports }

end Wiring

/-- What the body of a scope contributes: its records, its members and the ports it holds. -/
structure Level where
  records : Records
  members : List Member
  ports : List Port
  deriving Repr, DecidableEq

namespace Level

/-- The contribution of an empty body. -/
def empty : Level where
  records := .empty
  members := []
  ports := []

/-- Put a port in front, which the scope holds or else leaves to a call. -/
def consPort
    (port : Port)
    (isHeld : Bool)
    (level : Level) :
    Level :=
  { level with
    records := level.records.consPort port
    ports := if isHeld then port :: level.ports else level.ports }

/-- Put a child with its records in front. -/
def consMember
    (records : Records)
    (member : Member)
    (level : Level) :
    Level :=
  { level with
    records := records ++ level.records
    members := member :: level.members }

end Level

/-- The records of one program and what its scope sees of it. -/
structure Assembled where
  records : Records
  member : Member
  deriving Repr, DecidableEq

namespace Assembled

/-- The program of a call, which takes over the ports declared just before it. -/
def ofCall
    (scope : ProgramId)
    (before : Sizes)
    (site : Statement)
    (taken : List Port) :
    Assembled :=
  let inputs := taken.filter Port.isInput
  let outputs := taken.filter Port.isPlainOutput
  { records := Records.empty.consProgram {
      id := before.programs
      name := site.name
      kind := .invocation
      parent := some scope
      openedBy := site.id
      closedBy := none
      inputs := inputs.map Port.id
      outputs := outputs.map Port.id
      results := []
      children := []
      channels := []
      artifacts := [] }
    member := {
      program := before.programs
      synthesized := false
      inputs := inputs
      outputs := outputs } }

/-- The program of a scope, given what its body contributes. -/
def ofScope
    (parent : Option ProgramId)
    (before : Sizes)
    (opener closer : Statement)
    (body : Level) :
    Assembled :=
  let id := before.programs
  let wiring := Wiring.ofMembers (.ofPorts body.ports) body.members
  let inside := before + body.records.sizes
  let channels := wiring.channels id inside
  let artifacts := wiring.artifacts id inside
  let kind := ProgramKind.ofOpener opener
  { records := {
      programs := {
        id := id
        name := opener.name
        kind := kind
        parent := parent
        openedBy := opener.id
        closedBy := some closer.id
        inputs := wiring.interface.inputs.map Port.id
        outputs := wiring.interface.outputs.map Port.id
        results := wiring.interface.results.map Port.id
        children := body.members.map Member.program
        channels := channels.map Channel.id
        artifacts := artifacts.map Artifact.id } :: body.records.programs
      ports := body.records.ports
      channels := body.records.channels ++ channels
      artifacts := body.records.artifacts ++ artifacts }
    member := {
      program := id
      synthesized := kind = .synthesized
      inputs := wiring.interface.inputs
      outputs := wiring.interface.allOutputs } }

end Assembled

namespace Outline

/--
What a body contributes to its scope, given the sizes before it and the ports declared just before
it that the next call takes over.  Such a port belongs to that call, which is the next program.
-/
def assemble
    (scope : ProgramId) :
    (before : Sizes) → (taken : List Port) → Outline → Level
  | _, _, nil => .empty
  | before, taken, port declaration direction rest =>
      if rest.takes declaration then
        let port := Port.ofStatement before.ports before.programs declaration direction
        (rest.assemble scope before.addPort (taken ++ [port])).consPort port false
      else
        let port := Port.ofStatement before.ports scope declaration direction
        (rest.assemble scope before.addPort taken).consPort port true
  | before, taken, call site rest =>
      let leaf := Assembled.ofCall scope before site taken
      (rest.assemble scope (before + leaf.records.sizes) []).consMember leaf.records leaf.member
  | before, _, .scope opener body closer rest =>
      let inner := Assembled.ofScope (some scope) before opener closer
        (body.assemble before.programs before.addProgram [])
      (rest.assemble scope (before + inner.records.sizes) []).consMember inner.records inner.member

end Outline

namespace Block

/-- The records of a block, given the sizes before it. -/
def assemble
    (block : Block)
    (before : Sizes) :
    Assembled :=
  Assembled.ofScope none before block.opener block.closer
    (block.body.assemble before.programs before.addProgram [])

/-- The records of blocks one after another, given the sizes before the first. -/
def assembleAll
    (before : Sizes) :
    List Block → List Assembled
  | [] => []
  | block :: blocks =>
      let assembled := block.assemble before
      assembled :: assembleAll (before + assembled.records.sizes) blocks

end Block

end Flowmark
