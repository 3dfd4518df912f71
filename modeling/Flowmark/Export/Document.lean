import Flowmark.Json.Writer
import Flowmark.Run

namespace Flowmark

/-! # The document of a run

A run is exported as one object with its marks and its model.  Numbers of records are written as
numbers, tags and kinds by name, and what is absent as `null`.
-/

/-- A location in exported data. -/
def Location.toJson
    (location : Location) :
    Json :=
  .record [
    ("source", .optional .nat location.source),
    ("line", .nat location.line),
    ("comment", .nat location.comment),
    ("rank", .nat location.rank)]

/-- A mark in exported data. -/
def Mark.toJson
    (mark : Mark) :
    Json :=
  .record [
    ("id", .nat mark.id),
    ("location", mark.location.toJson),
    ("tag", .text mark.tag.name),
    ("keyword", .text mark.keyword),
    ("name", .text mark.name),
    ("name_kind", .text mark.nameKind.name),
    ("description", .optional .text mark.description),
    ("qualifies", .optional .nat mark.qualifies)]

/-- A program in exported data. -/
def Program.toJson
    (program : Program) :
    Json :=
  .record [
    ("id", .nat program.id),
    ("name", .text program.name),
    ("kind", .text program.kind.name),
    ("parent", .optional .nat program.parent),
    ("begin", .nat program.openedBy),
    ("end", .optional .nat program.closedBy),
    ("in_ports", .list .nat program.inputs),
    ("out_ports", .list .nat program.outputs),
    ("return_ports", .list .nat program.results),
    ("children", .list .nat program.children),
    ("channels", .list .nat program.channels),
    ("data", .list .nat program.artifacts)]

/-- A port in exported data. -/
def Port.toJson
    (port : Port) :
    Json :=
  .record [
    ("id", .nat port.id),
    ("owner", .nat port.owner),
    ("annotation", .nat port.mark),
    ("tag", .text port.tag.name),
    ("direction", .text port.direction.name),
    ("name", .text port.name),
    ("name_kind", .text port.nameKind.name),
    ("binding", .text port.binding),
    ("description", .optional .text port.description),
    ("uri", .optional .text port.uri)]

/-- A channel in exported data. -/
def Channel.toJson
    (channel : Channel) :
    Json :=
  .record [
    ("id", .nat channel.id),
    ("scope", .nat channel.scope),
    ("source", .nat channel.source),
    ("sink", .nat channel.sink),
    ("data", .nat channel.artifact)]

/-- An artifact in exported data. -/
def Artifact.toJson
    (artifact : Artifact) :
    Json :=
  .record [
    ("id", .nat artifact.id),
    ("scope", .nat artifact.scope),
    ("name", .text artifact.name),
    ("uri", .optional .text artifact.uri),
    ("ports", .list .nat artifact.ports)]

/-- A model in exported data. -/
def Model.toJson
    (model : Model) :
    Json :=
  .record [
    ("programs", .list Program.toJson model.programs),
    ("ports", .list Port.toJson model.ports),
    ("channels", .list Channel.toJson model.channels),
    ("data", .list Artifact.toJson model.artifacts),
    ("top_level", .list .nat model.topLevel),
    ("root", .optional .nat model.root)]

/-- The document of a run. -/
def Run.toJson
    (run : Run) :
    Json :=
  .record [
    ("annotations", .list Mark.toJson run.transcript.marks),
    ("model", run.model.toJson)]

end Flowmark
