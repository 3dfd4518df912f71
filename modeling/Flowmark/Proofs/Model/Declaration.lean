import Flowmark.Proofs.Markup.Qualification
import Flowmark.Proofs.Model.Reference

namespace Flowmark

open Statement

/-!
# Declaration of ports

A port of a model says what its declaration and the marks attached to it say.  It belongs to the
call that takes it over or else to the innermost scope that is open at its declaration.
-/

namespace Statement

/--
A call takes over a port other than a result if it is the first statement behind the port that
declares no port.
-/
structure TakenOverBy
    (port : Statement)
    (later : List Statement)
    (site : Statement) :
    Prop where
  notResult : port.tag ≠ .result
  calls : site.tag.role = .calls
  next : later.find? (!·.declaresPort) = some site

/-- A port is taken over by one call at most. -/
theorem TakenOverBy.unique
    {port first second : Statement}
    {later : List Statement}
    (byFirst : TakenOverBy port later first)
    (bySecond : TakenOverBy port later second) :
    first = second :=
  Option.some.inj (byFirst.next.symm.trans bySecond.next)

/-- A port is taken over exactly where some call takes it over. -/
theorem takenOver_iff
    (port : Statement)
    (later : List Statement) :
    TakenOver port later ↔ ∃ site, TakenOverBy port later site := by
  constructor
  · rintro ⟨notResult, ports, site, rest, shape, arePorts, calls⟩
    have declaresNone : ¬ site.declaresPort = true := by simp [declaresPort_iff, calls]
    refine ⟨site, notResult, calls, ?_⟩
    rw [List.find?_eq_some_iff_append]
    refine ⟨by simpa using declaresNone, ports, rest, shape, ?_⟩
    intro other isPort
    simpa using (declaresPort_iff other).mpr (arePorts other isPort)
  · rintro ⟨site, notResult, calls, next⟩
    obtain ⟨_, ports, rest, shape, arePorts⟩ := List.find?_eq_some_iff_append.mp next
    refine ⟨notResult, ports, site, rest, shape, ?_, calls⟩
    intro other isPort
    exact (declaresPort_iff other).mp (by simpa using arePorts other isPort)

/-- From inside a scope no port is taken over behind its end. -/
theorem takenOverBy_append_closer
    {closer : Statement}
    (closes : closer.tag.role = .closes)
    (port site : Statement)
    (inside behind : List Statement) :
    TakenOverBy port (inside ++ closer :: behind) site ↔ TakenOverBy port inside site := by
  have declaresNone : ¬ closer.declaresPort = true := by simp [declaresPort_iff, closes]
  constructor
  · rintro ⟨notResult, calls, next⟩
    rw [List.find?_append, List.find?_cons_of_pos (by simp [declaresNone]),
      Option.or_eq_some_iff] at next
    rcases next with found | ⟨_, isCloser⟩
    · exact ⟨notResult, calls, found⟩
    · cases isCloser
      rw [closes] at calls
      cases calls
  · rintro ⟨notResult, calls, next⟩
    refine ⟨notResult, calls, ?_⟩
    rw [List.find?_append, next, Option.some_or]

/-- Balanced statements leave the innermost open scope. -/
theorem InnermostOpen.append
    {before more : List Statement}
    {opener : Statement}
    (innermost : InnermostOpen before opener)
    (balanced : Balanced more) :
    InnermostOpen (before ++ more) opener := by
  obtain ⟨outside, inside, rfl, opens, insideBalanced⟩ := innermost
  exact ⟨outside, inside ++ more, by simp, opens, insideBalanced.append balanced⟩

end Statement

namespace Model

/-- A number is that of the scope which a statement opens. -/
def IsScopeOf
    (model : Model)
    (id : ProgramId)
    (opener : Statement) :
    Prop :=
  ∃ scope,
    model.program? id = some scope ∧
      scope.kind ≠ .invocation ∧
      scope.openedBy = opener.id

/-- A number is that of the call which a statement makes. -/
def IsCallOf
    (model : Model)
    (id : ProgramId)
    (site : Statement) :
    Prop :=
  ∃ leaf,
    model.program? id = some leaf ∧
      leaf.kind = .invocation ∧
      leaf.openedBy = site.id

/-- A program to which a port belongs that is declared between statements. -/
inductive Owns
    (model : Model)
    (before : List Statement)
    (declaration : Statement)
    (later : List Statement)
    (owner : ProgramId) :
    Prop where
  | call
      {site : Statement}
      (takenOver : TakenOverBy declaration later site)
      (isCall : model.IsCallOf owner site)
  | scope
      {opener : Statement}
      (notTakenOver : ∀ site, ¬ TakenOverBy declaration later site)
      (innermost : InnermostOpen before opener)
      (isScope : model.IsScopeOf owner opener)

/-- A port is that of a statement among others, and belongs where the statement stands. -/
inductive Declares
    (model : Model)
    (statements : List Statement)
    (port : Port) :
    Prop where
  | intro
      {before later : List Statement}
      {declaration : Statement}
      (shape : statements = before ++ declaration :: later)
      (declares : declaration.tag.role = .declares port.direction)
      (content : port = .ofStatement port.id port.owner declaration port.direction)
      (owns : model.Owns before declaration later port.owner)

end Model

namespace Outline

/-- Where a call is ahead, it makes the next program. -/
theorem exists_caller
    {model : Model}
    {outline : Outline}
    (roles : outline.HasRoles)
    (callAhead : outline.callAhead = true)
    {scope : ProgramId}
    {before : Sizes}
    {taken : List Port}
    (found : ∀ program ∈ (outline.assemble scope before taken).records.programs,
      model.program? program.id = some program) :
    ∃ site,
      site.tag.role = .calls ∧
        outline.statements.find? (!·.declaresPort) = some site ∧
        model.IsCallOf before.programs site := by
  induction outline generalizing before taken with
  | nil => cases callAhead
  | port declaration direction rest inductionHypothesis =>
      have declares : declaration.declaresPort = true :=
        (declaresPort_iff declaration).mpr ⟨direction, roles.1⟩
      rw [statements, List.find?_cons_of_neg (by simp [declares])]
      rw [assemble] at found
      split at found
      · exact @inductionHypothesis roles.2 callAhead before.addPort _ found
      · exact @inductionHypothesis roles.2 callAhead before.addPort _ found
  | call site rest _ =>
      have declaresNone : ¬ site.declaresPort = true := by simp [declaresPort_iff, roles.1]
      rw [statements, List.find?_cons_of_pos (by simp [declaresNone])]
      exact ⟨site, roles.1, rfl, _, (List.forall_mem_cons.mp found).1, rfl, rfl⟩
  | scope opener body closer rest _ _ => cases callAhead

/-- A call takes a port over in a body exactly where one does before the body is closed. -/
theorem takes_iff_takenOverBy
    {following : Outline}
    (roles : following.HasRoles)
    {closer : Statement}
    (closes : closer.tag.role = .closes)
    (declaration : Statement)
    (behind : List Statement) :
    following.takes declaration = true ↔
      ∃ site, TakenOverBy declaration (following.statements ++ closer :: behind) site := by
  simp only [takenOverBy_append_closer closes]
  rw [takes_iff roles, takenOver_iff]

end Outline

/-- The program of a block is that of the scope which its opener opens. -/
theorem Block.isScopeOf_program
    {model : Model}
    (block : Block)
    (position : Position)
    (found : model.program? (block.program position).id = some (block.program position)) :
    model.IsScopeOf position.before.programs block.opener :=
  ⟨block.program position, found, ProgramKind.ofOpener_ne_invocation block.opener, rfl⟩

/-- A body inside the scope of an opener declares its ports. -/
theorem Outline.declares_assemble
    {model : Model}
    {outline : Outline}
    (roles : outline.HasRoles)
    {scope : ProgramId}
    {before : Sizes}
    {taken : List Port}
    {earlier : List Statement}
    {opener closer : Statement}
    (innermost : InnermostOpen earlier opener)
    (isScope : model.IsScopeOf scope opener)
    (closes : closer.tag.role = .closes)
    (found : ∀ program ∈ (outline.assemble scope before taken).records.programs,
      model.program? program.id = some program)
    (behind : List Statement) :
    ∀ port ∈ (outline.assemble scope before taken).records.ports,
      model.Declares (earlier ++ (outline.statements ++ closer :: behind)) port := by
  -- Behind each item of the body the same scope is the innermost open one, so `earlier` may grow.
  induction outline generalizing scope before taken earlier opener closer behind with
  | nil => simp [assemble, Level.empty, Records.empty]
  | port declaration direction rest inductionHypothesis =>
      obtain ⟨declares, restRoles⟩ := roles
      have alone : Balanced [declaration] := .item (by simp [declares]) (by simp [declares]) .nil
      have inRest := fun {taken} found =>
        @inductionHypothesis restRoles scope before.addPort taken _ _ _ (innermost.append alone)
          isScope closes found behind
      rw [List.append_assoc] at inRest
      rw [assemble] at found ⊢
      split at found
      · rename_i isTaken
        rw [if_pos isTaken]
        refine List.forall_mem_cons.mpr ⟨?_, inRest found⟩
        obtain ⟨notResult, callAhead⟩ := Bool.and_eq_true_iff.mp isTaken
        obtain ⟨site, calls, next, isCall⟩ := exists_caller restRoles callAhead found
        have takenOver : TakenOverBy declaration rest.statements site :=
          ⟨bne_iff_ne.mp notResult, calls, next⟩
        exact .intro rfl declares rfl
          (.call ((takenOverBy_append_closer closes _ _ _ behind).mpr takenOver) isCall)
      · rename_i isHeld
        rw [if_neg isHeld]
        refine List.forall_mem_cons.mpr ⟨?_, inRest found⟩
        refine .intro rfl declares rfl (.scope ?_ innermost isScope)
        intro site takenOver
        exact isHeld ((takes_iff_takenOverBy restRoles closes declaration behind).mpr
          ⟨site, takenOver⟩)
  | call site rest inductionHypothesis =>
      obtain ⟨calls, restRoles⟩ := roles
      have alone : Balanced [site] := .item (by simp [calls]) (by simp [calls]) .nil
      obtain ⟨_, restFound⟩ := List.forall_mem_cons.mp found
      have inRest := inductionHypothesis restRoles (innermost.append alone) isScope closes
        restFound behind
      rw [List.append_assoc] at inRest
      exact inRest
  | scope inner body innerCloser rest bodyHypothesis inductionHypothesis =>
      obtain ⟨innerOpens, bodyRoles, innerCloses, restRoles⟩ := roles
      obtain ⟨scopeFound, restFound⟩ := List.forall_mem_append.mp found
      obtain ⟨programFound, bodyFound⟩ := List.forall_mem_cons.mp scopeFound
      have isInner := Block.isScopeOf_program ⟨inner, body, innerCloser⟩ ⟨some scope, before⟩
        programFound
      have innerBalanced : Balanced (inner :: (body.statements ++ [innerCloser])) :=
        .scope innerOpens (balanced_statements bodyRoles) innerCloses .nil
      have inBody := bodyHypothesis bodyRoles ⟨earlier, [], rfl, innerOpens, .nil⟩ isInner
        innerCloses bodyFound (rest.statements ++ closer :: behind)
      have inRest := inductionHypothesis restRoles (innermost.append innerBalanced) isScope closes
        restFound behind
      have shape :
          earlier ++ ((Outline.scope inner body innerCloser rest).statements ++ closer :: behind) =
            earlier ++ inner ::
              (body.statements ++ innerCloser :: (rest.statements ++ closer :: behind)) := by
        simp [statements]
      rw [shape]
      refine List.forall_mem_append.mpr ⟨?_, ?_⟩
      · rw [List.append_assoc] at inBody
        exact inBody
      · simpa using inRest

/-- The statements of blocks declare the ports of these. -/
theorem Block.declares_records
    {model : Model}
    {blocks : List Block}
    (roles : ∀ block ∈ blocks, block.HasRoles)
    {before : Sizes}
    (found : ∀ program ∈ (records before blocks).programs,
      model.program? program.id = some program)
    (earlier : List Statement) :
    ∀ port ∈ (records before blocks).ports,
      model.Declares (earlier ++ blocks.flatMap statements) port := by
  induction blocks generalizing before earlier with
  | nil => simp [records, assembleAll, Records.join, Records.empty]
  | cons block blocks inductionHypothesis =>
      obtain ⟨blockRoles, restRoles⟩ := List.forall_mem_cons.mp roles
      obtain ⟨blockFound, restFound⟩ := List.forall_mem_append.mp found
      obtain ⟨programFound, bodyFound⟩ := List.forall_mem_cons.mp blockFound
      have isScope := block.isScopeOf_program ⟨none, before⟩ programFound
      have inBody := Outline.declares_assemble blockRoles.body
        ⟨earlier, [], rfl, blockRoles.opens, .nil⟩ isScope blockRoles.closes bodyFound
        (blocks.flatMap statements)
      have inRest := inductionHypothesis restRoles restFound (earlier ++ block.statements)
      have shape : earlier ++ (block :: blocks).flatMap statements =
          earlier ++ [block.opener] ++
            (block.body.statements ++ block.closer :: blocks.flatMap statements) := by
        simp [statements]
      refine List.forall_mem_append.mpr ⟨?_, ?_⟩
      · rw [shape]
        exact inBody
      · rw [List.flatMap_cons, ← List.append_assoc]
        exact inRest

namespace Model

section Accepted

variable
  {workflow : Option String}
  {transcript : Transcript}
  {model : Model}
  (accepted : ofTranscript workflow transcript = .ok model)

include accepted

/-- Every port of a model is declared by a statement of its transcript. -/
theorem declares_of_ofTranscript :
    ∀ port ∈ model.ports, model.Declares transcript.statements port := by
  obtain ⟨nodes, formed⟩ := formedBy_of_ofTranscript accepted
  obtain ⟨blocks, isRead, rfl⟩ := blocks_of_ofTranscript accepted
  obtain ⟨roles, consistOf⟩ := Transcript.blocks_of_ofStatements isRead
  rw [← consistOf]
  exact Block.declares_records roles
    (fun _ isProgram => formed.numbered.programs.getElem?_of_mem isProgram) []

end Accepted

end Model

end Flowmark
