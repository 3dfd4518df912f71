import Flowmark.Proofs.Markup.Grouping
import Flowmark.Proofs.Model.Shift
import Flowmark.Proofs.Outline.Relabeling

namespace Flowmark

/-!
# Assembly at another place

What a scope contributes does not depend on how many marks and records come before it, except that
its numbers begin where theirs end.
-/

variable (offset : Shift)

/-! ## Raised numbers -/

/-- A program with raised numbers. -/
def Program.shift
    (program : Program) :
    Program :=
  { program with
    id := offset.sizes.programs + program.id
    parent := program.parent.map (offset.sizes.programs + ·)
    openedBy := offset.marks + program.openedBy
    closedBy := program.closedBy.map (offset.marks + ·)
    inputs := program.inputs.map (offset.sizes.ports + ·)
    outputs := program.outputs.map (offset.sizes.ports + ·)
    results := program.results.map (offset.sizes.ports + ·)
    children := program.children.map (offset.sizes.programs + ·)
    channels := program.channels.map (offset.sizes.channels + ·)
    artifacts := program.artifacts.map (offset.sizes.artifacts + ·) }

/-- A channel with raised numbers. -/
def Channel.shift
    (channel : Channel) :
    Channel where
  id := offset.sizes.channels + channel.id
  scope := offset.sizes.programs + channel.scope
  source := offset.sizes.ports + channel.source
  sink := offset.sizes.ports + channel.sink
  artifact := offset.sizes.artifacts + channel.artifact

/-- An artifact with raised numbers. -/
def Artifact.shift
    (artifact : Artifact) :
    Artifact :=
  { artifact with
    id := offset.sizes.artifacts + artifact.id
    scope := offset.sizes.programs + artifact.scope
    ports := artifact.ports.map (offset.sizes.ports + ·) }

namespace Records

/-- Records with raised numbers. -/
def shift
    (records : Records) :
    Records where
  programs := records.programs.map (Program.shift offset)
  ports := records.ports.map (Port.shift offset)
  channels := records.channels.map (Channel.shift offset)
  artifacts := records.artifacts.map (Artifact.shift offset)

@[simp] theorem sizes_shift
    (records : Records) :
    (records.shift offset).sizes = records.sizes := by
  ext <;> simp [sizes, shift]

@[simp] theorem shift_append
    (left right : Records) :
    (left ++ right).shift offset = left.shift offset ++ right.shift offset := by
  ext1 <;> simp [shift]

theorem append_assoc
    (left middle right : Records) :
    left ++ middle ++ right = left ++ (middle ++ right) := by
  ext1 <;> simp

/-- Joining two lists of groups is joining each and then both. -/
theorem join_append
    (first second : List Records) :
    join (first ++ second) = join first ++ join second := by
  induction first with
  | nil => rfl
  | cons records first inductionHypothesis =>
      simp only [join, List.cons_append, List.foldr_cons] at inductionHypothesis ⊢
      rw [inductionHypothesis, append_assoc]

/-- Joined groups are raised one by one. -/
theorem shift_join
    (groups : List Records) :
    (join groups).shift offset = join (groups.map (shift offset)) := by
  induction groups with
  | nil => rfl
  | cons records groups inductionHypothesis =>
      simp only [join, List.map_cons, List.foldr_cons, shift_append] at inductionHypothesis ⊢
      rw [inductionHypothesis]

end Records

/-- The contribution of a body with raised numbers. -/
def Level.shift
    (level : Level) :
    Level where
  records := level.records.shift offset
  members := level.members.map (Member.shift offset)
  ports := level.ports.map (Port.shift offset)

namespace Level

/-- A port in front of a contribution is raised by itself. -/
theorem shift_consPort
    (port : Port)
    (isHeld : Bool)
    (level : Level) :
    (level.consPort port isHeld).shift offset =
      (level.shift offset).consPort (port.shift offset) isHeld := by
  cases isHeld <;> rfl

/-- A member in front of a contribution is raised by itself. -/
theorem shift_consMember
    (records : Records)
    (member : Member)
    (level : Level) :
    (level.consMember records member).shift offset =
      (level.shift offset).consMember (records.shift offset) (member.shift offset) := by
  simp only [shift, consMember, Records.shift_append, List.map_cons]

end Level

/-- An assembled program with raised numbers. -/
def Assembled.shift
    (assembled : Assembled) :
    Assembled where
  records := assembled.records.shift offset
  member := assembled.member.shift offset

/-! ## Programs -/

namespace Wiring

variable (wiring : Wiring) (scope : ProgramId) (before : Sizes)

/-- A raised wiring in a raised scope has the raised channels. -/
theorem channels_shift :
    (wiring.shift offset).channels (offset.sizes.programs + scope) (offset.sizes + before) =
      (wiring.channels scope before).map (Channel.shift offset) := by
  have samePosition : ∀ flow : Port × Port,
      (wiring.shift offset).inventory.position (flow.1.shift offset, flow.2.shift offset) =
        wiring.inventory.position flow := by
    intro flow
    rw [inventory_shift, Inventory.position, Inventory.keys_shift]
    rfl
  have sameFlows :
      (wiring.shift offset).flows.zipIdx =
        wiring.flows.zipIdx.map
          (Prod.map (fun flow => (flow.1.shift offset, flow.2.shift offset)) id) :=
    List.zipIdx_map
  simp only [channels, sameFlows, List.map_map, Function.comp_def, Prod.map_fst, Prod.map_snd,
    id_eq, samePosition, Sizes.channels_add, Sizes.artifacts_add, Nat.add_assoc, Channel.shift]
  rfl

/-- A raised wiring in a raised scope has the raised artifacts. -/
theorem artifacts_shift :
    (wiring.shift offset).artifacts (offset.sizes.programs + scope) (offset.sizes + before) =
      (wiring.artifacts scope before).map (Artifact.shift offset) := by
  simp only [artifacts, inventory_shift, Inventory.shift, List.zipIdx_map, List.map_map,
    Function.comp_def, Prod.map_fst, Prod.map_snd, id_eq, Sizes.artifacts_add, Nat.add_assoc,
    Artifact.shift]
  rfl

end Wiring

/-- A raised declaration declares the raised port. -/
theorem Port.ofStatement_shift
    (id : PortId)
    (owner : ProgramId)
    (declaration : Statement)
    (direction : Direction) :
    Port.ofStatement (offset.sizes.ports + id) (offset.sizes.programs + owner)
        (declaration.shift offset.marks) direction =
      (Port.ofStatement id owner declaration direction).shift offset := by
  simp only [Port.ofStatement, Statement.binding_shift, Statement.description?_shift,
    Statement.uri?_shift]
  rfl

namespace Assembled

/-- A raised call takes raised ports to be the raised invocation. -/
theorem ofCall_shift
    (scope : ProgramId)
    (before : Sizes)
    (site : Statement)
    (taken : List Port) :
    ofCall (offset.sizes.programs + scope) (offset.sizes + before) (site.shift offset.marks)
        (taken.map (Port.shift offset)) =
      (ofCall scope before site taken).shift offset := by
  have sameInputs : ∀ ports : List Port,
      (ports.map (Port.shift offset)).filter Port.isInput =
        (ports.filter Port.isInput).map (Port.shift offset) := by
    intro ports
    rw [List.filter_map]
    rfl
  have sameOutputs : ∀ ports : List Port,
      (ports.map (Port.shift offset)).filter Port.isPlainOutput =
        (ports.filter Port.isPlainOutput).map (Port.shift offset) := by
    intro ports
    rw [List.filter_map]
    rfl
  simp only [ofCall, sameInputs, sameOutputs, Port.map_id_shift]
  rfl

/-- Raised statements around a raised body make the raised scope. -/
theorem ofScope_shift
    (parent : Option ProgramId)
    (before : Sizes)
    (opener closer : Statement)
    (body : Level) :
    ofScope (parent.map (offset.sizes.programs + ·)) (offset.sizes + before)
        (opener.shift offset.marks) (closer.shift offset.marks) (body.shift offset) =
      (ofScope parent before opener closer body).shift offset := by
  have sameWiring :
      Wiring.ofMembers (.ofPorts (body.shift offset).ports) (body.shift offset).members =
        (Wiring.ofMembers (.ofPorts body.ports) body.members).shift offset := by
    rw [← Wiring.ofMembers_shift, ← Interface.ofPorts_shift]
    rfl
  have sameInside :
      offset.sizes + before + (body.shift offset).records.sizes =
        offset.sizes + (before + body.records.sizes) := by
    rw [show (body.shift offset).records = body.records.shift offset from rfl,
      Records.sizes_shift, Sizes.add_assoc]
  simp only [ofScope, sameWiring, sameInside, Sizes.programs_add, Wiring.channels_shift,
    Wiring.artifacts_shift]
  simp only [shift, Records.shift, Member.shift, Program.shift, Level.shift, Wiring.shift,
    Interface.shift, Interface.allOutputs, List.map_cons, List.map_append, List.map_map,
    Option.map_some, Function.comp_def]
  rfl

end Assembled

/-! ## Bodies and blocks -/

/-- Raising the numbers of statements as a relabeling. -/
def Relabeling.shift
    (count : Nat) :
    Relabeling where
  apply := Statement.shift count
  place := id
  tag := Statement.tag_shift count
  name := fun _ => rfl
  binding := Statement.binding_shift count
  location := fun _ => rfl

/-- Statements with raised numbers form blocks of statements with raised numbers. -/
theorem Block.ofStatements_shift
    (count : Nat)
    {statements : List Statement}
    {blocks : List Block}
    (isRead : ofStatements statements = .ok blocks) :
    ofStatements (statements.map (Statement.shift count)) =
      .ok (blocks.map (Block.map (Statement.shift count))) := by
  have relabeled := (Relabeling.shift count).ofStatements_map statements
  rw [isRead] at relabeled
  exact relabeled

/-- Blocks of statements with raised numbers come from blocks of the statements. -/
theorem Block.exists_of_ofStatements_shift
    {count : Nat}
    {statements : List Statement}
    {blocks : List Block}
    (isRead : ofStatements (statements.map (Statement.shift count)) = .ok blocks) :
    ∃ own,
      ofStatements statements = .ok own ∧
        own.map (Block.map (Statement.shift count)) = blocks := by
  have relabeled := (Relabeling.shift count).ofStatements_map statements
  cases ownRead : ofStatements statements with
  | error fault =>
      rw [ownRead] at relabeled
      cases isRead.symm.trans relabeled
  | ok own =>
      rw [ownRead] at relabeled
      exact ⟨own, rfl, (Except.ok.inj (isRead.symm.trans relabeled)).symm⟩

namespace Outline

/-- Raised numbers do not matter for whether a call takes a port. -/
@[simp] theorem takes_shift
    (count : Nat)
    (following : Outline)
    (declaration : Statement) :
    (following.map (Statement.shift count)).takes (declaration.shift count) =
      following.takes declaration := by
  simp only [takes, Statement.tag_shift, callAhead_map]

/-- What a body contributes is the same with raised numbers. -/
theorem assemble_shift
    (scope : ProgramId)
    (before : Sizes)
    (taken : List Port)
    (outline : Outline) :
    (outline.map (Statement.shift offset.marks)).assemble (offset.sizes.programs + scope)
        (offset.sizes + before) (taken.map (Port.shift offset)) =
      (outline.assemble scope before taken).shift offset := by
  induction outline generalizing scope before taken with
  | nil => rfl
  | port declaration direction rest inductionHypothesis =>
      cases isTaken : rest.takes declaration with
      | true =>
          simp only [map, assemble, takes_shift, isTaken, if_true, Level.shift_consPort,
            ← inductionHypothesis, List.map_append, List.map_singleton, ← Port.ofStatement_shift]
          rfl
      | false =>
          simp only [map, assemble, takes_shift, isTaken, Bool.false_eq_true, if_false,
            Level.shift_consPort, ← inductionHypothesis, ← Port.ofStatement_shift]
          rfl
  | call site rest inductionHypothesis =>
      simp only [map, assemble, Level.shift_consMember, ← inductionHypothesis,
        Assembled.ofCall_shift, Assembled.shift, Records.sizes_shift, Sizes.add_assoc]
      rfl
  | scope opener body closer rest bodyHypothesis inductionHypothesis =>
      have sameInner :
          Assembled.ofScope (some (offset.sizes.programs + scope)) (offset.sizes + before)
              (opener.shift offset.marks) (closer.shift offset.marks)
              ((body.map (Statement.shift offset.marks)).assemble
                (offset.sizes + before).programs (offset.sizes + before).addProgram []) =
            (Assembled.ofScope (some scope) before opener closer
              (body.assemble before.programs before.addProgram [])).shift offset := by
        rw [← Assembled.ofScope_shift, ← bodyHypothesis]
        rfl
      simp only [map, assemble, Level.shift_consMember, ← inductionHypothesis, sameInner,
        Assembled.shift, Records.sizes_shift, Sizes.add_assoc]
      rfl

end Outline

namespace Block

/-- A block of raised statements is assembled to the raised program. -/
theorem assemble_shift
    (before : Sizes)
    (block : Block) :
    (block.map (Statement.shift offset.marks)).assemble (offset.sizes + before) =
      (block.assemble before).shift offset := by
  rw [assemble, assemble, ← Assembled.ofScope_shift, ← Outline.assemble_shift]
  rfl

/-- Blocks of raised statements are assembled to the raised programs. -/
theorem assembleAll_shift
    (before : Sizes)
    (blocks : List Block) :
    assembleAll (offset.sizes + before) (blocks.map (Block.map (Statement.shift offset.marks))) =
      (assembleAll before blocks).map (Assembled.shift offset) := by
  induction blocks generalizing before with
  | nil => rfl
  | cons block blocks inductionHypothesis =>
      simp only [List.map_cons, assembleAll, assemble_shift, Assembled.shift,
        Records.sizes_shift, Sizes.add_assoc, inductionHypothesis]

/-- Further blocks are assembled behind the records of those before them. -/
theorem assembleAll_append
    (before : Sizes)
    (first second : List Block) :
    assembleAll before (first ++ second) =
      assembleAll before first ++
        assembleAll
          (before + (Records.join ((assembleAll before first).map Assembled.records)).sizes)
          second := by
  induction first generalizing before with
  | nil => rfl
  | cons block first inductionHypothesis =>
      simp only [List.cons_append, assembleAll, List.map_cons, Records.join, List.foldr_cons,
        Records.sizes_append, inductionHypothesis, Sizes.add_assoc]

end Block

end Flowmark
