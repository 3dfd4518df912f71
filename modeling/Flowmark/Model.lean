import Flowmark.Model.Assembly

namespace Flowmark

/-! # Models

A model is what the markup of a run says: its programs with their ports, the channels between
them, the artifacts that flow, the programs that stand in no other, and the root from which a
reader should start.
-/

/-- The records of a run, its top-level programs in closing order, and its root. -/
structure Model extends Records where
  topLevel : List ProgramId
  root : Option ProgramId
  deriving Repr, DecidableEq

namespace Model

/-- The program with a number. -/
def program?
    (model : Model)
    (id : ProgramId) :
    Option Program :=
  model.programs[id]?

/-- The port with a number. -/
def port?
    (model : Model)
    (id : PortId) :
    Option Port :=
  model.ports[id]?

/-- The channel with a number. -/
def channel?
    (model : Model)
    (id : ChannelId) :
    Option Channel :=
  model.channels[id]?

/-- The artifact with a number. -/
def artifact?
    (model : Model)
    (id : ArtifactId) :
    Option Artifact :=
  model.artifacts[id]?

/-- Whether the model has no program. -/
def isEmpty
    (model : Model) :
    Bool :=
  model.programs.isEmpty

/-- The programs that stand in no other, in closing order. -/
def topLevelPrograms
    (model : Model) :
    List Program :=
  model.topLevel.filterMap model.program?

/-- The program from which a reader should start. -/
def rootProgram?
    (model : Model) :
    Option Program :=
  model.root.bind model.program?

/-- The first program with a name, in the order of opening. -/
def find?
    (model : Model)
    (name : String) :
    Option Program :=
  model.programs.find? (·.name = name)

/-- The programs that are workflows. -/
def workflows
    (model : Model) :
    List Program :=
  model.programs.filter Program.isWorkflow

/-- The programs that are functions. -/
def functions
    (model : Model) :
    List Program :=
  model.programs.filter Program.isFunction

/-- The children of a program. -/
def childrenOf
    (model : Model)
    (program : Program) :
    List Program :=
  program.children.filterMap model.program?

/-- The ports with given numbers. -/
def portsOf
    (model : Model)
    (ids : List PortId) :
    List Port :=
  ids.filterMap model.port?

/-- The channels of a program. -/
def channelsOf
    (model : Model)
    (program : Program) :
    List Channel :=
  program.channels.filterMap model.channel?

/-- The artifacts of a program. -/
def artifactsOf
    (model : Model)
    (program : Program) :
    List Artifact :=
  program.artifacts.filterMap model.artifact?

/--
The names of the programs from the top level down to a numbered one.  A parent opens before its
children, so its number is smaller.
-/
def path
    (model : Model)
    (id : ProgramId) :
    List String :=
  match model.program? id with
  | none => []
  | some program =>
      match program.parent with
      | none => [program.name]
      | some parent =>
          if parent < id then model.path parent ++ [program.name] else [program.name]
  termination_by id

/--
The root among the top-level programs: the first with the chosen name, or without a choice the
first of all.
-/
def chooseRoot
    (records : Records)
    (topLevel : List ProgramId) :
    Option String → Option ProgramId
  | none => topLevel.head?
  | some workflow =>
      topLevel.find? fun id =>
        records.programs[id]?.any fun program => program.name = workflow

/-- The model of a list of blocks, with a chosen workflow as root. -/
def ofBlocks
    (workflow : Option String)
    (blocks : List Block) :
    Model :=
  let assembled := Block.assembleAll .zero blocks
  let records := Records.join (assembled.map Assembled.records)
  let topLevel := assembled.map fun part => part.member.program
  { toRecords := records
    topLevel := topLevel
    root := chooseRoot records topLevel workflow }

/-- The model of a transcript, with a chosen workflow as root. -/
def ofTranscript
    (workflow : Option String)
    (transcript : Transcript) :
    Except Fault Model :=
  (Block.ofStatements transcript.statements).map (ofBlocks workflow)

end Model

end Flowmark
