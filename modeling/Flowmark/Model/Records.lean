import Flowmark.Markup.Statement

namespace Flowmark

/-! # Records of a model

A model consists of programs, ports, channels and artifacts.  Each sort is numbered from zero in a
list of its own, and records refer to one another by number.
-/

/-- The number of a program: programs are numbered in the order in which they open. -/
abbrev ProgramId :=
  Nat

/-- The number of a port: ports are numbered in the order of their declaration. -/
abbrev PortId :=
  Nat

/-- The number of a channel: channels are numbered in the order in which their scopes close. -/
abbrev ChannelId :=
  Nat

/-- The number of an artifact: artifacts are numbered in the order in which their scopes close. -/
abbrev ArtifactId :=
  Nat

/-- A declared port. -/
structure Port where
  id : PortId
  owner : ProgramId
  mark : MarkId
  tag : Tag
  direction : Direction
  name : String
  nameKind : NameKind
  binding : String
  description : Option String
  uri : Option String
  deriving Repr, DecidableEq

namespace Port

/-- The port that a statement declares for an owner. -/
def ofStatement
    (id : PortId)
    (owner : ProgramId)
    (declaration : Statement)
    (direction : Direction) :
    Port where
  id := id
  owner := owner
  mark := declaration.id
  tag := declaration.tag
  direction := direction
  name := declaration.name
  nameKind := declaration.primary.nameKind
  binding := declaration.binding
  description := declaration.description?
  uri := declaration.uri?

/-- Whether the port is a parameter. -/
def isParameter
    (port : Port) :
    Bool :=
  port.tag = .parameter

/-- Whether the port is a result of its owner as a function. -/
def isResult
    (port : Port) :
    Bool :=
  port.tag = .result

/-- Whether the port is an input. -/
def isInput
    (port : Port) :
    Bool :=
  port.direction = .input

/-- Whether the port is an output other than a result. -/
def isPlainOutput
    (port : Port) :
    Bool :=
  !port.isInput && !port.isResult

/-- Whether the port is visible under another name than its own. -/
def isAliased
    (port : Port) :
    Bool :=
  port.binding ≠ port.name

end Port

/-- How a program came into the model. -/
inductive ProgramKind where
  /-- A scope with its body in the script. -/
  | block
  /-- A scope whose body is supplied from outside. -/
  | synthesized
  /-- A call, which has no body. -/
  | invocation
  deriving Repr, DecidableEq

/-- The name of a program kind in exported data. -/
def ProgramKind.name : ProgramKind → String
  | block => "Block"
  | synthesized => "Synthesized"
  | invocation => "Invocation"

/-- The kind of the scope that a statement opens. -/
def ProgramKind.ofOpener
    (opener : Statement) :
    ProgramKind :=
  if opener.tag = .create then .synthesized else .block

/-- A scope or a call. -/
structure Program where
  id : ProgramId
  name : String
  kind : ProgramKind
  parent : Option ProgramId
  /-- The mark that opens the scope or makes the call. -/
  openedBy : MarkId
  /-- The mark that closes the scope; a call has none. -/
  closedBy : Option MarkId
  /-- The program's own inputs, then those that its children leave open. -/
  inputs : List PortId
  /-- The program's own outputs except results, then those of its children that feed nothing. -/
  outputs : List PortId
  results : List PortId
  children : List ProgramId
  channels : List ChannelId
  artifacts : List ArtifactId
  deriving Repr, DecidableEq

namespace Program

/-- Programs without parent and programs with children are workflows. -/
def isWorkflow
    (program : Program) :
    Bool :=
  program.parent.isNone || !program.children.isEmpty

/-- Programs with results are functions. -/
def isFunction
    (program : Program) :
    Bool :=
  !program.results.isEmpty

/-- Whether the body of the program is supplied from outside. -/
def isSynthesized
    (program : Program) :
    Bool :=
  program.kind = .synthesized

/-- Whether the program is a call. -/
def isInvocation
    (program : Program) :
    Bool :=
  program.kind = .invocation

/-- The outputs, then the results. -/
def allOutputs
    (program : Program) :
    List PortId :=
  program.outputs ++ program.results

/-- The ports of one direction. -/
def ports
    (program : Program) :
    Direction → List PortId
  | .input => program.inputs
  | .output => program.allOutputs

end Program

/-- A flow of data from one port to another, found in a scope. -/
structure Channel where
  id : ChannelId
  scope : ProgramId
  source : PortId
  sink : PortId
  artifact : ArtifactId
  deriving Repr, DecidableEq

/-- What flows through ports of a scope, known by its URI or else by a binding. -/
structure Artifact where
  id : ArtifactId
  scope : ProgramId
  name : String
  uri : Option String
  ports : List PortId
  deriving Repr, DecidableEq

/-- How many records of each sort there are. -/
@[ext]
structure Sizes where
  programs : Nat
  ports : Nat
  channels : Nat
  artifacts : Nat
  deriving Repr, DecidableEq

namespace Sizes

/-- No records. -/
def zero : Sizes :=
  ⟨0, 0, 0, 0⟩

/-- The sizes of two groups of records together. -/
protected def add
    (left right : Sizes) :
    Sizes where
  programs := left.programs + right.programs
  ports := left.ports + right.ports
  channels := left.channels + right.channels
  artifacts := left.artifacts + right.artifacts

instance : Add Sizes :=
  ⟨Sizes.add⟩

/-- The sizes after one more program. -/
def addProgram
    (sizes : Sizes) :
    Sizes :=
  { sizes with programs := sizes.programs + 1 }

/-- The sizes after one more port. -/
def addPort
    (sizes : Sizes) :
    Sizes :=
  { sizes with ports := sizes.ports + 1 }

@[simp] theorem programs_add
    (left right : Sizes) :
    (left + right).programs = left.programs + right.programs :=
  rfl

@[simp] theorem ports_add
    (left right : Sizes) :
    (left + right).ports = left.ports + right.ports :=
  rfl

@[simp] theorem channels_add
    (left right : Sizes) :
    (left + right).channels = left.channels + right.channels :=
  rfl

@[simp] theorem artifacts_add
    (left right : Sizes) :
    (left + right).artifacts = left.artifacts + right.artifacts :=
  rfl

@[simp] theorem zero_add
    (sizes : Sizes) :
    zero + sizes = sizes := by
  ext <;> simp [zero]

@[simp] theorem add_zero
    (sizes : Sizes) :
    sizes + zero = sizes :=
  rfl

theorem add_assoc
    (first second third : Sizes) :
    first + second + third = first + (second + third) := by
  ext <;> simp [Nat.add_assoc]

end Sizes

/-- Records of all four sorts, each in the order of the numbers. -/
@[ext]
structure Records where
  programs : List Program
  ports : List Port
  channels : List Channel
  artifacts : List Artifact
  deriving Repr, DecidableEq

namespace Records

/-- No records. -/
def empty : Records :=
  ⟨[], [], [], []⟩

/-- One group of records followed by another. -/
protected def append
    (left right : Records) :
    Records where
  programs := left.programs ++ right.programs
  ports := left.ports ++ right.ports
  channels := left.channels ++ right.channels
  artifacts := left.artifacts ++ right.artifacts

instance : Append Records :=
  ⟨Records.append⟩

/-- Put a program in front. -/
def consProgram
    (program : Program)
    (records : Records) :
    Records :=
  { records with programs := program :: records.programs }

/-- Put a port in front. -/
def consPort
    (port : Port)
    (records : Records) :
    Records :=
  { records with ports := port :: records.ports }

/-- Groups of records one after another. -/
def join
    (groups : List Records) :
    Records :=
  groups.foldr (· ++ ·) empty

/-- How many records of each sort there are. -/
def sizes
    (records : Records) :
    Sizes where
  programs := records.programs.length
  ports := records.ports.length
  channels := records.channels.length
  artifacts := records.artifacts.length

@[simp] theorem programs_append
    (left right : Records) :
    (left ++ right).programs = left.programs ++ right.programs :=
  rfl

@[simp] theorem ports_append
    (left right : Records) :
    (left ++ right).ports = left.ports ++ right.ports :=
  rfl

@[simp] theorem channels_append
    (left right : Records) :
    (left ++ right).channels = left.channels ++ right.channels :=
  rfl

@[simp] theorem artifacts_append
    (left right : Records) :
    (left ++ right).artifacts = left.artifacts ++ right.artifacts :=
  rfl

@[simp] theorem sizes_empty :
    empty.sizes = .zero :=
  rfl

@[simp] theorem sizes_append
    (left right : Records) :
    (left ++ right).sizes = left.sizes + right.sizes := by
  ext <;> simp [sizes]

end Records

end Flowmark
