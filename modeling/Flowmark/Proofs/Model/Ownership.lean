import Flowmark.Proofs.Model.Declaration
import Mathlib.Data.List.Perm.Subperm

namespace Flowmark

open Statement

/-!
# Ownership of ports

The ports of a model are those that its transcript declares.  Each says what its declaration and the
run behind it say, and belongs to one program, which shows its own ports before all others.
-/

/-- A port tells what a primary and the run of marks behind it say. -/
structure Port.Tells
    (port : Port)
    (primary : Mark)
    (run : List Mark) :
    Prop where
  mark : port.mark = primary.id
  tag : port.tag = primary.tag
  direction : primary.tag.role = .declares port.direction
  name : port.name = primary.name
  nameKind : port.nameKind = primary.nameKind
  binding : ∃ alias?,
    LastWith (·.tag = .rebind) run alias? ∧
      port.binding = (alias?.map (·.name)).getD primary.name
  description :
    JoinedTo ((primary :: run.filter (·.tag = .rebind)).filterMap (·.description))
      port.description
  uri : ∃ place?,
    LastWith (fun mark => mark.tag = .uri ∨ mark.tag = .file) run place? ∧
      port.uri = place?.map placeOf

/-- The port of a declaration tells what the declaration says. -/
theorem Port.tells_ofStatement
    {id : PortId}
    {owner : ProgramId}
    {declaration : Statement}
    {direction : Direction}
    (declares : declaration.tag.role = .declares direction) :
    (Port.ofStatement id owner declaration direction).Tells declaration.primary
      declaration.qualifiers where
  mark := rfl
  tag := rfl
  direction := declares
  name := rfl
  nameKind := rfl
  binding := declaration.exists_alias
  description := declaration.joined_description
  uri := declaration.exists_place

namespace Model

section Numbers

variable (model : Model) (program : Program)

/-- The numbers of the ports that a program owns and that pass a test, in order of declaration. -/
def ownedBy
    (test : Port → Bool) :
    List PortId :=
  (model.ports.filter fun port => port.owner = program.id && test port).map Port.id

/-- A program shows given ports of its own first, and behind them only ports of other programs. -/
def ShowsFirst
    (own shown : List PortId) :
    Prop :=
  ∃ passed,
    shown = own ++ passed ∧
      ∀ port ∈ model.ports, port.id ∈ passed → port.owner ≠ program.id

/-- A program shows its own ports in order of declaration, and a call shows no others. -/
structure ShowsOwn :
    Prop where
  inputs : model.ShowsFirst program (model.ownedBy program Port.isInput) program.inputs
  outputs : model.ShowsFirst program (model.ownedBy program Port.isPlainOutput) program.outputs
  results : program.results = model.ownedBy program Port.isResult
  call : program.kind = .invocation →
    program.inputs = model.ownedBy program Port.isInput ∧
      program.outputs = model.ownedBy program (!·.isInput) ∧
      program.results = []

end Numbers

/-- A port is declared by a statement of a transcript and belongs where this stands. -/
inductive AccountsFor
    (model : Model)
    (transcript : Transcript)
    (port : Port) :
    Prop where
  | intro
      {before later : List Statement}
      {declaration : Statement}
      (shape : transcript.statements = before ++ declaration :: later)
      (hasRun : transcript.HasRun declaration.primary declaration.qualifiers)
      (tells : port.Tells declaration.primary declaration.qualifiers)
      (owns : model.Owns before declaration later port.owner)
      (ofCall : ∀ leaf ∈ model.programs, leaf.kind = .invocation →
        (port.owner = leaf.id ↔
          ∃ site, TakenOverBy declaration later site ∧ leaf.openedBy = site.id))

/-- The ports of a model are declared and owned as a transcript says. -/
structure Allots
    (model : Model)
    (transcript : Transcript) :
    Prop where
  declared : model.ports.map Port.mark =
    (transcript.statements.filter Statement.declaresPort).map Statement.id
  accounts : ∀ port ∈ model.ports, model.AccountsFor transcript port
  shown : ∀ program ∈ model.programs, model.ShowsOwn program

namespace FormedBy

variable {model : Model} {nodes : List Node} {node : Node}

/-- The ports of a node are those that its program owns. -/
theorem node_ports_eq
    (formed : model.FormedBy nodes)
    (isNode : node ∈ nodes) :
    node.ports = model.ports.filter fun port => port.owner = node.program.id := by
  have owners := (formed.sound isNode).owners
  have ownKept : (node.ports.filter fun port => port.owner = node.program.id) = node.ports :=
    List.filter_eq_self.mpr fun port isPort => decide_eq_true (owners port isPort)
  have nodup : model.ports.Nodup := formed.numbered.ports.nodup.of_map
  have sublist : node.ports.Sublist model.ports := by
    obtain ⟨_, forest, _⟩ := formed
    exact forest.declared node isNode
  -- The node has its ports in the order of the model, and none that it owns is missing.
  have keptSublist := sublist.filter fun port => port.owner = node.program.id
  rw [ownKept] at keptSublist
  refine keptSublist.eq_of_length_le (List.subperm_of_subset (nodup.filter _) ?_).length_le
  intro port isOwned
  obtain ⟨isPort, isOwner⟩ := List.mem_filter.mp isOwned
  obtain ⟨other, isOther, ofOther⟩ := (formed.mem_ports_iff port).mp isPort
  have sameNode := formed.node_ext isOther isNode
    (((formed.sound isOther).owners port ofOther).symm.trans (of_decide_eq_true isOwner))
  rwa [← sameNode]

/-- What a node has of its own are the ports that its program owns. -/
theorem map_filter_ports
    (formed : model.FormedBy nodes)
    (isNode : node ∈ nodes)
    (test : Port → Bool) :
    (node.ports.filter test).map Port.id = model.ownedBy node.program test := by
  rw [formed.node_ports_eq isNode, List.filter_filter, ownedBy]
  refine congrArg (List.map Port.id) (List.filter_congr fun port _ => ?_)
  exact Bool.and_comm _ _

/-- What the members of a node show does not belong to its program. -/
theorem showsFirst_of_shown
    (formed : model.FormedBy nodes)
    (isNode : node ∈ nodes)
    {direction : Direction}
    {own : List PortId}
    {shown : List Port}
    (areShown : ∀ port ∈ shown, port ∈ node.members.flatMap fun member => member.ports direction) :
    model.ShowsFirst node.program own (own ++ shown.map Port.id) := by
  refine ⟨_, rfl, ?_⟩
  intro port isPort isPassed
  obtain ⟨other, isOther, sameId⟩ := List.mem_map.mp isPassed
  have inMembers := areShown other isOther
  rw [formed.port_ext (formed.shown_mem_ports isNode inMembers) isPort sameId] at inMembers
  obtain ⟨member, isMember, memberShows⟩ := List.mem_flatMap.mp inMembers
  exact formed.owner_ne_of_shown isNode (formed.childrenApart node) isMember memberShows

/-- A program without children shows its own ports and no others. -/
theorem interface_of_no_children
    (formed : model.FormedBy nodes)
    (isNode : node ∈ nodes)
    (noChildren : node.program.children = []) :
    node.wiring.interface = node.own := by
  have noMembers : node.members = [] := by
    rw [(formed.sound isNode).children] at noChildren
    exact List.map_eq_nil_iff.mp noChildren
  rw [Node.wiring, noMembers, Wiring.ofMembers_nil]

/-- Every program of a formed model shows its own ports first. -/
theorem showsOwn
    (formed : model.FormedBy nodes)
    (isNode : node ∈ nodes)
    (leaf : node.program.kind = .invocation →
      node.program.children = [] ∧ ∀ port ∈ node.ports, port.tag ≠ .result) :
    model.ShowsOwn node.program where
  inputs := by
    rw [(formed.sound isNode).inputs, Node.wiring,
      (formed.apart isNode).distinct.interface_inputs, List.map_append,
      ← formed.map_filter_ports isNode]
    refine @showsFirst_of_shown _ _ _ formed isNode .input _ _ ?_
    exact fun port isUnfed => (List.mem_filter.mp isUnfed).1
  outputs := by
    rw [(formed.sound isNode).outputs, Node.wiring,
      (formed.apart isNode).distinct.interface_outputs, List.map_append,
      ← formed.map_filter_ports isNode]
    refine @showsFirst_of_shown _ _ _ formed isNode .output _ _ ?_
    exact fun port isUnused => (List.mem_filter.mp isUnused).1
  results := by
    rw [(formed.sound isNode).results, Node.wiring, Wiring.interface_results,
      ← formed.map_filter_ports isNode]
    rfl
  call := by
    intro isCall
    obtain ⟨noChildren, notResults⟩ := leaf isCall
    have sound := formed.sound isNode
    have interface := formed.interface_of_no_children isNode noChildren
    have plain : node.ports.filter Port.isPlainOutput = node.ports.filter (!·.isInput) := by
      apply List.filter_congr
      intro port isPort
      simp [Port.isPlainOutput, Port.isResult, notResults port isPort]
    have results : node.ports.filter Port.isResult = [] := by
      rw [List.filter_eq_nil_iff]
      exact fun port isPort isResult => notResults port isPort (of_decide_eq_true isResult)
    rw [sound.inputs, sound.outputs, sound.results, interface, ← formed.map_filter_ports isNode,
      ← formed.map_filter_ports isNode, ← plain]
    refine ⟨rfl, rfl, ?_⟩
    change (node.ports.filter Port.isResult).map Port.id = []
    rw [results, List.map_nil]

end FormedBy

section Accepted

variable
  {workflow : Option String}
  {transcript : Transcript}
  {model : Model}
  (accepted : ofTranscript workflow transcript = .ok model)

include accepted

/-- A call is the owner of a declared port exactly if it takes the port over. -/
theorem owner_eq_call_iff
    {before later : List Statement}
    {declaration : Statement}
    {owner : ProgramId}
    (owns : model.Owns before declaration later owner)
    {leaf : Program}
    (isProgram : leaf ∈ model.programs)
    (isCall : leaf.kind = .invocation) :
    owner = leaf.id ↔
      ∃ site, TakenOverBy declaration later site ∧ leaf.openedBy = site.id := by
  obtain ⟨nodes, formed⟩ := formedBy_of_ofTranscript accepted
  have found : model.program? leaf.id = some leaf :=
    formed.numbered.programs.getElem?_of_mem isProgram
  cases owns with
  | call takenOver ofCall =>
      obtain ⟨caller, isCaller, _, openedBy⟩ := ofCall
      constructor
      · rintro rfl
        rw [found] at isCaller
        cases isCaller
        exact ⟨_, takenOver, openedBy⟩
      · rintro ⟨site, otherTakenOver, sameSite⟩
        have isCallerProgram := List.mem_of_getElem? isCaller
        have sameOpening : caller.openedBy = leaf.openedBy := by
          rw [openedBy, sameSite, takenOver.unique otherTakenOver]
        rw [← openedBy_ext accepted isCallerProgram isProgram sameOpening]
        exact (formed.id_of_program? isCaller).symm
  | scope notTakenOver _ ofScope =>
      obtain ⟨scope, isScope, notCall, _⟩ := ofScope
      constructor
      · rintro rfl
        rw [found] at isScope
        cases isScope
        exact absurd isCall notCall
      · rintro ⟨site, takenOver, _⟩
        exact absurd takenOver (notTakenOver site)

/-- A call has no children. -/
theorem children_of_call
    {leaf : Program}
    (isProgram : leaf ∈ model.programs)
    (isCall : leaf.kind = .invocation) :
    leaf.children = [] := by
  obtain ⟨blocks, _, rfl⟩ := blocks_of_ofTranscript accepted
  have childless : ∀ program ∈ (Block.records .zero blocks).programs,
      program.kind = .invocation → program.children = [] := by
    refine Block.forall_programs_records (fun _ _ _ _ _ => rfl) ?_ _ _
    intro block position isCall
    exact absurd isCall (ProgramKind.ofOpener_ne_invocation block.opener)
  exact childless leaf isProgram isCall

/-- Every port of a model is accounted for by a statement of the transcript. -/
theorem accountsFor_of_mem_ports
    {port : Port}
    (isPort : port ∈ model.ports) :
    model.AccountsFor transcript port := by
  obtain ⟨shape, declares, content, owns⟩ := declares_of_ofTranscript accepted port isPort
  rename_i before later declaration
  have isStatement : declaration ∈ transcript.statements := by simp [shape]
  refine .intro shape (Transcript.hasRun_of_mem_statements isStatement) ?_ owns
    fun _ isProgram isCall => owner_eq_call_iff accepted owns isProgram isCall
  rw [content]
  exact Port.tells_ofStatement declares

/-- No result belongs to a call. -/
theorem not_result_of_call
    {leaf : Program}
    (isProgram : leaf ∈ model.programs)
    (isCall : leaf.kind = .invocation)
    {port : Port}
    (isPort : port ∈ model.ports)
    (isOwner : port.owner = leaf.id) :
    port.tag ≠ .result := by
  obtain ⟨_, _, tells, _, ofCall⟩ := accountsFor_of_mem_ports accepted isPort
  obtain ⟨site, takenOver, _⟩ := (ofCall leaf isProgram isCall).mp isOwner
  rw [tells.tag]
  exact takenOver.notResult

/-- Every program of a model of a transcript shows its own ports first. -/
theorem showsOwn_of_ofTranscript
    {program : Program}
    (isProgram : program ∈ model.programs) :
    model.ShowsOwn program := by
  obtain ⟨nodes, formed⟩ := formedBy_of_ofTranscript accepted
  obtain ⟨node, isNode, rfl⟩ := formed.node_of_mem isProgram
  refine formed.showsOwn isNode fun isCall =>
    ⟨children_of_call accepted isProgram isCall, ?_⟩
  intro port isOwn
  have isPort := (formed.mem_ports_iff port).mpr ⟨node, isNode, isOwn⟩
  exact not_result_of_call accepted isProgram isCall isPort
    ((formed.sound isNode).owners port isOwn)

end Accepted

/--
In a model of a transcript, the ports are those that it declares, in order.  A port tells what its
declaration and the run behind it say, belongs to the call that takes it over or else to the
innermost open scope, and is shown by its owner before all ports of other programs.
-/
theorem allots_of_ofTranscript
    {workflow : Option String}
    {transcript : Transcript}
    {model : Model}
    (accepted : ofTranscript workflow transcript = .ok model) :
    model.Allots transcript where
  declared := map_mark_of_ofTranscript accepted
  accounts := fun _ isPort => accountsFor_of_mem_ports accepted isPort
  shown := fun _ isProgram => showsOwn_of_ofTranscript accepted isProgram

/-- A call that takes over a qualified input and an output, but not the result between them. -/
theorem exists_accepted_qualified :
    ∃ transcript model,
      ofTranscript none transcript = .ok model ∧
        (model.ports.map fun port => (port.owner, port.binding, port.description, port.uri)) = [
          (1, "y", some "one two", some "file:f"), (0, "r", none, none),
          (1, "z", none, none)] := by
  let entry : Tag × String × Option String × Option MarkId → Entry :=
    fun (tag, name, description, qualifies) =>
      ⟨default, tag, tag.keyword, name, .identifier, description, qualifies⟩
  refine ⟨Transcript.ofEntries ([(.begin, "s", none, none), (.input, "x", some "one", none),
    (.rebind, "y", some "two", some 2), (.file, "f", none, some 2), (.result, "r", none, none),
    (.output, "z", none, none), (.call, "g", none, none),
    (.finish, "s", none, none)].map entry), exists_of_toOption_map ?_⟩
  decide +kernel

/-- The owners, bindings, descriptions and places of the ports of that transcript. -/
theorem allots_of_ofTranscript_qualified :
    ∃ transcript model,
      ofTranscript none transcript = .ok model ∧
        (model.ports.map fun port => (port.owner, port.binding, port.description, port.uri)) =
          [(1, "y", some "one two", some "file:f"), (0, "r", none, none), (1, "z", none, none)] ∧
        model.Allots transcript := by
  obtain ⟨transcript, model, accepted, ports⟩ := exists_accepted_qualified
  exact ⟨transcript, model, accepted, ports, allots_of_ofTranscript accepted⟩

end Model

end Flowmark
