import Mathlib.Data.List.Forall2
import Flowmark.Proofs.Model.Subtree
import Flowmark.Proofs.Outline.OpenScopes

namespace Flowmark

/-!
# Programs at their sites

The programs of a model stand, one by one, at the sites of its statements.  From a program one
climbs from parent to parent over the programs of the scopes that are open at its site, innermost
first, and these name its path.
-/

namespace ProgramKind

/-- The kind of the program that a statement with a tag makes, if it makes one. -/
def ofTag? : Tag → Option ProgramKind
  | .begin => some block
  | .create => some synthesized
  | .call => some invocation
  | .finish | .input | .output | .parameter | .result | .rebind | .uri | .file => none

/-- What opens a scope makes a program of the kind of the scope. -/
theorem ofTag?_of_opens
    {opener : Statement}
    (opens : opener.tag.role = .opens) :
    ofTag? opener.tag = some (ofOpener opener) := by
  unfold ofOpener
  generalize opener.tag = tag at opens
  cases tag <;> first | rfl | cases opens

/-- A call makes an invocation. -/
theorem ofTag?_of_calls
    {tag : Tag}
    (calls : tag.role = .calls) :
    ofTag? tag = some invocation := by
  cases tag <;> first | rfl | cases calls

/-- Nothing but openers and calls makes programs. -/
theorem ofTag?_eq_none
    {tag : Tag}
    (opensNone : tag.role ≠ .opens)
    (callsNone : tag.role ≠ .calls) :
    ofTag? tag = none := by
  cases tag <;> first | rfl | exact absurd rfl opensNone | exact absurd rfl callsNone

end ProgramKind

/-- The mark and the kind of the program that a statement makes, if it makes one. -/
def Statement.made?
    (statement : Statement) :
    Option (MarkId × ProgramKind) :=
  (ProgramKind.ofTag? statement.tag).map fun kind => (statement.id, kind)

/-- Each program that is made has the mark of a statement of its own. -/
theorem Statement.sublist_made
    (statements : List Statement) :
    ((statements.filterMap made?).map Prod.fst).Sublist (statements.map id) := by
  induction statements with
  | nil => exact .slnil
  | cons statement statements inductionHypothesis =>
      cases isKind : ProgramKind.ofTag? statement.tag with
      | none =>
          have makesNone : statement.made? = none := by rw [made?, isKind, Option.map_none]
          rw [List.filterMap_cons_none makesNone]
          exact inductionHypothesis.cons _
      | some kind =>
          have makes : statement.made? = some (statement.id, kind) := by
            rw [made?, isKind, Option.map_some]
          rw [List.filterMap_cons_some makes]
          exact inductionHypothesis.cons_cons _

/-- A statement that neither opens nor calls makes no program. -/
theorem Statement.made?_eq_none
    (statement : Statement)
    (opensNone : statement.tag.role ≠ .opens)
    (callsNone : statement.tag.role ≠ .calls) :
    statement.made? = none := by
  rw [made?, ProgramKind.ofTag?_eq_none opensNone callsNone, Option.map_none]

namespace Model

/-- From parent to parent one climbs to the top over the programs of given openers. -/
inductive Climbs
    (model : Model) :
    Option ProgramId → List Statement → Prop where
  | top : Climbs model none []
  | scope
      {id : ProgramId}
      {program : Program}
      {opener : Statement}
      {around : List Statement}
      (found : model.program? id = some program)
      (openedBy : program.openedBy = opener.id)
      (name : program.name = opener.name)
      (climbs : Climbs model program.parent around) :
      Climbs model (some id) (opener :: around)

end Model

/-- A program of a model is the one that is made at a site. -/
structure Program.StandsAt
    (model : Model)
    (program : Program)
    (site : Site) :
    Prop where
  openedBy : program.openedBy = site.opener.id
  name : program.name = site.opener.name
  kind : ProgramKind.ofTag? site.opener.tag = some program.kind
  closedBy : program.closedBy = site.closer.map Statement.id
  climbs : model.Climbs program.parent site.around

/-- A program that stands at a site is the one that its opener makes. -/
theorem Program.StandsAt.isMade
    {model : Model}
    {program : Program}
    {site : Site}
    (standsAt : program.StandsAt model site) :
    site.opener.made? = some (program.openedBy, program.kind) := by
  rw [Statement.made?, standsAt.kind, standsAt.openedBy, Option.map_some]

/-- The program of a block stands where its opener does. -/
theorem Block.standsAt_program
    {model : Model}
    {block : Block}
    (opens : block.opener.tag.role = .opens)
    {position : Position}
    {around : List Statement}
    (climbs : model.Climbs position.parent around) :
    (block.program position).StandsAt model ⟨block.opener, around, some block.closer⟩ where
  openedBy := rfl
  name := rfl
  kind := ProgramKind.ofTag?_of_opens opens
  closedBy := rfl
  climbs := climbs

/-- Under a scope that climbs over given openers, an outline makes its programs at its sites. -/
theorem Outline.forall₂_standsAt
    {model : Model}
    {outline : Outline}
    (roles : outline.HasRoles)
    {scope : ProgramId}
    {before : Sizes}
    {taken : List Port}
    {around : List Statement}
    (climbs : model.Climbs (some scope) around)
    (found : ∀ program ∈ (outline.assemble scope before taken).records.programs,
      model.program? program.id = some program) :
    List.Forall₂ (Program.StandsAt model) (outline.assemble scope before taken).records.programs
      (outline.sites around) := by
  induction outline generalizing scope before taken around with
  | nil => exact .nil
  | port declaration direction rest inductionHypothesis =>
      rw [assemble] at found ⊢
      split at found
      · rename_i isTaken
        rw [if_pos isTaken]
        exact inductionHypothesis roles.2 climbs found
      · rename_i isHeld
        rw [if_neg isHeld]
        exact inductionHypothesis roles.2 climbs found
  | call site rest inductionHypothesis =>
      obtain ⟨_, restFound⟩ := List.forall_mem_cons.mp found
      refine .cons ?_ (inductionHypothesis roles.2 climbs restFound)
      exact ⟨rfl, rfl, ProgramKind.ofTag?_of_calls roles.1, rfl, climbs⟩
  | scope opener body closer rest bodyHypothesis inductionHypothesis =>
      obtain ⟨opens, bodyRoles, _, restRoles⟩ := roles
      obtain ⟨scopeFound, restFound⟩ := List.forall_mem_append.mp found
      obtain ⟨programFound, bodyFound⟩ := List.forall_mem_cons.mp scopeFound
      have standsAt := @Block.standsAt_program model ⟨opener, body, closer⟩ opens
        ⟨some scope, before⟩ around climbs
      exact .cons standsAt (List.rel_append
        (bodyHypothesis bodyRoles (.scope programFound rfl rfl climbs) bodyFound)
        (inductionHypothesis restRoles climbs restFound))

/-- The programs of a block stand, one by one and in order, at its sites. -/
theorem Block.forall₂_standsAt
    {model : Model}
    {block : Block}
    (roles : block.HasRoles)
    {before : Sizes}
    (found : ∀ program ∈ (block.assemble before).records.programs,
      model.program? program.id = some program) :
    List.Forall₂ (Program.StandsAt model) (block.assemble before).records.programs
      block.sites := by
  obtain ⟨programFound, bodyFound⟩ := List.forall_mem_cons.mp found
  have standsAt := @Block.standsAt_program model block roles.opens ⟨none, before⟩ [] .top
  exact .cons standsAt
    (Outline.forall₂_standsAt roles.body (.scope programFound rfl rfl .top) bodyFound)

/-- The programs of blocks stand, one by one and in order, at their sites. -/
theorem Block.forall₂_standsAt_records
    {model : Model}
    {blocks : List Block}
    (roles : ∀ block ∈ blocks, block.HasRoles)
    {before : Sizes}
    (found : ∀ program ∈ (records before blocks).programs,
      model.program? program.id = some program) :
    List.Forall₂ (Program.StandsAt model) (records before blocks).programs
      (blocks.flatMap Block.sites) := by
  induction blocks generalizing before with
  | nil => exact .nil
  | cons block blocks inductionHypothesis =>
      obtain ⟨blockRoles, restRoles⟩ := List.forall_mem_cons.mp roles
      obtain ⟨blockFound, restFound⟩ := List.forall_mem_append.mp found
      exact List.rel_append (Block.forall₂_standsAt blockRoles blockFound)
        (inductionHypothesis restRoles restFound)

/-- What is related one by one has a partner for each. -/
theorem forall₂_exists_of_mem
    {α β : Type}
    {related : α → β → Prop}
    {firsts : List α}
    {seconds : List β}
    (oneByOne : List.Forall₂ related firsts seconds)
    {first : α}
    (isFirst : first ∈ firsts) :
    ∃ second ∈ seconds, related first second := by
  induction oneByOne with
  | nil => cases isFirst
  | cons isRelated _ inductionHypothesis =>
      rcases List.mem_cons.mp isFirst with rfl | isLater
      · exact ⟨_, List.mem_cons_self, isRelated⟩
      · obtain ⟨second, isSecond, isRelated⟩ := inductionHypothesis isLater
        exact ⟨second, List.mem_cons_of_mem _ isSecond, isRelated⟩

namespace Model

/-- The programs of a model stand, one by one and in order, at sites among statements. -/
structure StandsAmong
    (model : Model)
    (statements : List Statement)
    (sites : List Site) :
    Prop where
  standAt : List.Forall₂ (Program.StandsAt model) model.programs sites
  standIn : ∀ site ∈ sites, site.StandsIn statements
  makers : (sites.filterMap fun site => site.opener.made?) = statements.filterMap Statement.made?
  closers : ∀ statement ∈ statements,
    statement.tag.role = .closes → ∃ site ∈ sites, site.closer = some statement

namespace StandsAmong

variable {model : Model} {statements : List Statement} {sites : List Site}

/-- Every program stands at a site among the statements. -/
theorem exists_site
    (standsAmong : model.StandsAmong statements sites)
    {program : Program}
    (isProgram : program ∈ model.programs) :
    ∃ site, site.StandsIn statements ∧ program.StandsAt model site := by
  obtain ⟨site, isSite, standsAt⟩ := forall₂_exists_of_mem standsAmong.standAt isProgram
  exact ⟨site, standsAmong.standIn site isSite, standsAt⟩

/-- A statement that closes a scope closes that of a program. -/
theorem exists_program_of_closes
    (standsAmong : model.StandsAmong statements sites)
    {closer : Statement}
    (isStatement : closer ∈ statements)
    (closes : closer.tag.role = .closes) :
    ∃ program ∈ model.programs, program.closedBy = some closer.id := by
  obtain ⟨site, isSite, isCloser⟩ := standsAmong.closers closer isStatement closes
  obtain ⟨program, isProgram, standsAt⟩ :=
    forall₂_exists_of_mem standsAmong.standAt.flip isSite
  exact ⟨program, isProgram, by rw [standsAt.closedBy, isCloser, Option.map_some]⟩

/-- The programs are those that the statements make. -/
theorem map_made
    (standsAmong : model.StandsAmong statements sites) :
    (model.programs.map fun program => (program.openedBy, program.kind)) =
      statements.filterMap Statement.made? := by
  obtain ⟨standAt, -, makers, -⟩ := standsAmong
  rw [← makers]
  clear makers
  generalize model.programs = programs at standAt ⊢
  induction standAt with
  | nil => rfl
  | cons standsAt _ inductionHypothesis =>
      rw [List.map_cons, List.filterMap_cons, standsAt.isMade, inductionHypothesis]

/-- No two programs are opened by one statement where statements are told by their numbers. -/
theorem nodup_openedBy
    (standsAmong : model.StandsAmong statements sites)
    (distinct : (statements.map Statement.id).Nodup) :
    (model.programs.map Program.openedBy).Nodup := by
  have openings := congrArg (List.map Prod.fst) standsAmong.map_made
  rw [List.map_map] at openings
  change model.programs.map Program.openedBy = _ at openings
  rw [openings]
  exact (Statement.sublist_made statements).nodup distinct

end StandsAmong

/-- The programs of an accepted transcript stand among its statements. -/
theorem standsAmong_of_ofTranscript
    {workflow : Option String}
    {transcript : Transcript}
    {model : Model}
    (accepted : ofTranscript workflow transcript = .ok model) :
    ∃ sites, model.StandsAmong transcript.statements sites := by
  obtain ⟨nodes, formed⟩ := formedBy_of_ofTranscript accepted
  obtain ⟨blocks, isRead, rfl⟩ := blocks_of_ofTranscript accepted
  obtain ⟨roles, consistOf⟩ := Transcript.blocks_of_ofStatements isRead
  refine ⟨blocks.flatMap Block.sites, ?_⟩
  rw [← consistOf]
  exact
    { standAt := Block.forall₂_standsAt_records roles fun _ isProgram =>
        formed.numbered.programs.getElem?_of_mem isProgram
      standIn := fun _ isSite => Block.standsIn_of_mem_sites roles isSite
      makers := Block.filterMap_sites Statement.made?_eq_none roles
      closers := fun _ isStatement closes =>
        Block.exists_site_of_closes roles isStatement closes }

/-- No two programs are opened by the same mark. -/
theorem openedBy_ext
    {workflow : Option String}
    {transcript : Transcript}
    {model : Model}
    (accepted : ofTranscript workflow transcript = .ok model)
    {first second : Program}
    (isFirst : first ∈ model.programs)
    (isSecond : second ∈ model.programs)
    (sameMark : first.openedBy = second.openedBy) :
    first = second := by
  obtain ⟨sites, standsAmong⟩ := standsAmong_of_ofTranscript accepted
  have distinct := standsAmong.nodup_openedBy transcript.nodup_id_statements
  exact List.inj_on_of_nodup_map distinct isFirst isSecond sameMark

/-- The path of a program has the names of the programs over which one climbs. -/
theorem FormedBy.path_of_climbs
    {model : Model}
    {nodes : List Node}
    (formed : model.FormedBy nodes)
    {id : ProgramId}
    {openers : List Statement}
    (climbs : model.Climbs (some id) openers) :
    model.path id = (openers.map Statement.name).reverse := by
  generalize isStart : some id = start at climbs
  induction climbs generalizing id with
  | top => cases isStart
  | @scope id program opener around found openedBy name climbs inductionHypothesis =>
      cases isStart
      rw [path, found, List.map_cons, List.reverse_cons, ← name]
      cases isParent : program.parent with
      | none =>
          rw [isParent] at climbs
          cases climbs
          simp [isParent]
      | some parent =>
          have before := formed.parent_lt_of_program? found isParent
          simp [isParent, before, inductionHypothesis isParent.symm]

end Model

end Flowmark
