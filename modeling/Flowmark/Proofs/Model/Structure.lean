import Flowmark.Proofs.Model.Reference
import Flowmark.Proofs.Outline.Pending

namespace Flowmark

open Statement

/-!
# The structure of a model

A model mirrors the bracket structure of its transcript: a program stands where a scope opens or a
call is made, its parent is the innermost scope that is open there, and it is closed where the scope
is.  All records are numbered without gaps, filed where they belong, and refer to one another.
-/

namespace Model

/-- A model has the structure of a transcript. -/
structure Mirrors
    (model : Model)
    (transcript : Transcript) :
    Prop where
  /-- Records have the numbers of their places. -/
  numbered : model.toRecords.AllNumbered .zero
  /-- Programs are made by the statements that open scopes and make calls, in order. -/
  made :
    (model.programs.map fun program => (program.openedBy, program.kind)) =
      transcript.statements.filterMap made?
  /-- A program is enclosed and closed as its site is, and its path has the names around it. -/
  sites : ∀ program ∈ model.programs, ∃ site : Site,
    site.StandsIn transcript.statements ∧
      program.StandsAt model site ∧
      model.path program.id = (site.around.map Statement.name).reverse ++ [program.name]
  parents : ∀ program ∈ model.programs, ∀ parent,
    program.parent = some parent → parent < program.id
  filed : model.Filed
  /-- What a channel carries is an artifact of its scope. -/
  carried : ∀ channel ∈ model.channels, ∃ artifact,
    model.artifact? channel.artifact = some artifact ∧ artifact.scope = channel.scope
  resolves : model.Resolves transcript
  root : ∀ id, model.root = some id → id ∈ model.topLevel

/-- The model of an accepted transcript mirrors it. -/
theorem mirrors_of_accepted
    {workflow : Option String}
    {transcript : Transcript}
    {model : Model}
    (accepted : ofTranscript workflow transcript = .ok model) :
    model.Mirrors transcript := by
  obtain ⟨nodes, formed⟩ := formedBy_of_ofTranscript accepted
  obtain ⟨sites, standsAmong⟩ := standsAmong_of_ofTranscript accepted
  have numbered := allNumbered_of_ofTranscript accepted
  have rootListed := root_of_ofTranscript accepted
  exact
    { numbered := numbered
      made := standsAmong.map_made
      sites := by
        intro program isProgram
        obtain ⟨site, standsIn, standsAt⟩ := standsAmong.exists_site isProgram
        have climbs : model.Climbs (some program.id) (site.opener :: site.around) :=
          .scope (numbered.programs.getElem?_of_mem isProgram) standsAt.openedBy standsAt.name
            standsAt.climbs
        refine ⟨site, standsIn, standsAt, ?_⟩
        rw [formed.path_of_climbs climbs, List.map_cons, List.reverse_cons, standsAt.name]
      parents := fun _ isProgram _ => formed.parent_lt isProgram
      filed := formed.filed
      carried := by
        intro channel isChannel
        obtain ⟨artifact, isArtifact, same, sameScope⟩ := formed.exists_carried isChannel
        have found := numbered.artifacts.getElem?_of_mem isArtifact
        rw [same] at found
        exact ⟨artifact, found, sameScope⟩
      resolves := resolves_of_ofTranscript accepted
      root := rootListed }

/--
The model of an accepted transcript has its structure.  While the transcript is read, the reader
always has a frame for each open scope, and a ledger lists its ports, with offsets in the lists.
-/
theorem mirrors_of_ofTranscript
    (workflow : Option String)
    (transcript : Transcript) :
    (∀ model, ofTranscript workflow transcript = .ok model → model.Mirrors transcript) ∧
      ∀ before after reader,
        transcript.statements = before ++ after →
        OutlineReader.start.run before = .ok reader →
          reader.frames.map Frame.opener = openScopes before ∧
            Ledger.Keeps reader.frames (Ledger.after before) :=
  ⟨fun _ => mirrors_of_accepted, fun _ _ _ _ ran =>
    ⟨OutlineReader.openers_of_run ran, OutlineReader.keeps_of_run ran⟩⟩

set_option maxRecDepth 4000 in
/-- A scope with a child and a call, and the state in which both scopes are open. -/
theorem exists_accepted_halfRead :
    ∃ transcript model before after reader,
      ofTranscript none transcript = .ok model ∧
        model.programs.map (fun program => (program.parent, program.closedBy)) =
          [(none, some 8), (some 0, some 5), (some 0, none)] ∧
        transcript.statements = before ++ after ∧
        OutlineReader.start.run before = .ok reader ∧
        (Ledger.after before).map (fun ledger => (ledger.inputs.length, ledger.pendingInputs)) =
          [(1, 0), (1, 1)] := by
  let entry : Tag × String → Entry := fun (tag, name) =>
    ⟨default, tag, tag.keyword, name, .identifier, none, none⟩
  refine ⟨Transcript.ofEntries ([(.begin, "a"), (.input, "x"), (.begin, "b"), (.input, "x"),
    (.finish, "b"), (.input, "y"), (.call, "f"), (.finish, "a")].map entry), _, _, _, _, rfl, ?_,
    (List.take_append_drop 4 _).symm, rfl, ?_⟩
  · rfl
  · rfl

/-- The three programs of that transcript, and the two ledgers halfway. -/
theorem mirrors_of_ofTranscript_nested :
    ∃ transcript model before after reader,
      ofTranscript none transcript = .ok model ∧
        model.Mirrors transcript ∧
        model.programs.length = 3 ∧
        transcript.statements = before ++ after ∧
        OutlineReader.start.run before = .ok reader ∧
        Ledger.Keeps reader.frames (Ledger.after before) ∧
        (Ledger.after before).length = 2 := by
  obtain ⟨transcript, model, before, after, reader, accepted, programs, shape, ran, ledgers⟩ :=
    exists_accepted_halfRead
  have programCount := congrArg List.length programs
  have ledgerCount := congrArg List.length ledgers
  rw [List.length_map] at programCount ledgerCount
  obtain ⟨mirrors, tracks⟩ := mirrors_of_ofTranscript none transcript
  exact ⟨transcript, model, before, after, reader, accepted, mirrors model accepted, programCount,
    shape, ran, (tracks before after reader shape ran).2, ledgerCount⟩

end Model

end Flowmark
