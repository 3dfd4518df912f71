import Flowmark.Proofs.Markup.Grouping
import Flowmark.Proofs.Model.Ancestry
import Flowmark.Proofs.Skeleton.Lines

namespace Flowmark

open Statement

/-!
# Indentation of skeletons

A skeleton is written with a counter for the depth of its lines, and a model is read with a stack of
open scopes.  Where a transcript is accepted, the two agree at every statement: a line stands as
deep as the path of its program says.
-/

namespace Statement

/-- The depth counts the open scopes. -/
theorem length_nest
    (around : List Statement)
    (statement : Statement) :
    (nest around statement).length = statement.depthAfter around.length := by
  unfold nest depthAfter
  cases statement.tag.role with
  | opens => exact List.length_cons
  | closes => exact List.length_tail
  | calls | declares | qualifies => rfl

/-- Nesting statements changes the number of open scopes as they change the depth. -/
theorem length_foldl_nest
    (around statements : List Statement) :
    (statements.foldl nest around).length = statements.foldl depthAfter around.length := by
  induction statements generalizing around with
  | nil => rfl
  | cons statement statements inductionHypothesis =>
      rw [List.foldl_cons, List.foldl_cons, inductionHypothesis, length_nest]

/-- There are as many open scopes as the depth says. -/
theorem length_openScopes
    (statements : List Statement) :
    (openScopes statements).length = statements.foldl depthAfter 0 :=
  length_foldl_nest [] statements

end Statement

/-- A program is the only one of a model that passes a test. -/
structure Model.IsOnly
    (model : Model)
    (test : Program → Prop)
    (program : Program) :
    Prop where
  isProgram : program ∈ model.programs
  passes : test program
  only : ∀ other ∈ model.programs, test other → other = program

namespace Skeleton

/-- A text behind the blanks of a depth. -/
def indented
    (depth : Nat)
    (text : List Char) :
    List Char :=
  List.replicate (4 * depth) ' ' ++ text

/-- A line with a text is the delimiter, a blank and the text, indented. -/
theorem toList_render_some
    (delimiter text : String)
    (depth : Nat) :
    (SkeletonLine.render delimiter ⟨depth, some text⟩).toList =
      indented depth (delimiter.toList ++ ' ' :: text.toList) :=
  SkeletonLine.toList_render delimiter ⟨depth, some text⟩

/-- A line without a text is the delimiter, indented. -/
theorem toList_render_none
    (delimiter : String)
    (depth : Nat) :
    (SkeletonLine.render delimiter ⟨depth, none⟩).toList = indented depth delimiter.toList := by
  rw [SkeletonLine.toList_render, List.append_nil, indented]

/--
The lines of a statement that stands behind others, told from a model.  The line of a program stands
one level above the length of its path, and so does the line that closes it.  The empty lines inside
stand at the length of the path, and a port stands at the number of open scopes.
-/
inductive LinesOf
    (model : Model)
    (delimiter : List Char)
    (before : List Statement)
    (statement : Statement) :
    List (List Char) → Prop where
  | opens
      {program : Program}
      {depth : Nat}
      (opens : statement.tag.role = .opens)
      (isOnly : model.IsOnly (·.openedBy = statement.id) program)
      (path : (model.path program.id).length = depth + 1) :
      LinesOf model delimiter before statement
        [indented depth (delimiter ++ ' ' :: statement.text.toList),
          indented (depth + 1) delimiter]
  | closes
      {program : Program}
      {depth : Nat}
      (closes : statement.tag.role = .closes)
      (isOnly : model.IsOnly (·.closedBy = some statement.id) program)
      (path : (model.path program.id).length = depth + 1) :
      LinesOf model delimiter before statement
        [indented (depth + 1) delimiter,
          indented depth (delimiter ++ ' ' :: statement.text.toList)]
  | calls
      {program : Program}
      {depth : Nat}
      (calls : statement.tag.role = .calls)
      (isOnly : model.IsOnly (·.openedBy = statement.id) program)
      (path : (model.path program.id).length = depth + 1) :
      LinesOf model delimiter before statement
        [indented depth (delimiter ++ ' ' :: statement.text.toList)]
  | declares
      {direction : Direction}
      (declares : statement.tag.role = .declares direction) :
      LinesOf model delimiter before statement
        [indented (openScopes before).length (delimiter ++ ' ' :: statement.text.toList)]

/-- The lines of statements that stand behind others, one statement after another. -/
inductive Follows
    (model : Model)
    (delimiter : List Char) :
    List Statement → List Statement → List (List Char) → Prop where
  | nil
      {before : List Statement} :
      Follows model delimiter before [] []
  | cons
      {before statements : List Statement}
      {statement : Statement}
      {own rest : List (List Char)}
      (linesOf : LinesOf model delimiter before statement own)
      (follows : Follows model delimiter (before ++ [statement]) statements rest) :
      Follows model delimiter before (statement :: statements) (own ++ rest)

end Skeleton

namespace Model

open Skeleton

/-- The path of a program has its own name and one for each scope around it. -/
theorem FormedBy.length_path
    {model : Model}
    {nodes : List Node}
    (formed : model.FormedBy nodes)
    {program : Program}
    (isProgram : program ∈ model.programs)
    {site : Site}
    (standsAt : program.StandsAt model site) :
    (model.path program.id).length = site.around.length + 1 := by
  have found : model.program? program.id = some program :=
    formed.numbered.programs.getElem?_of_mem isProgram
  have climbs := Climbs.scope found standsAt.openedBy standsAt.name standsAt.climbs
  rw [formed.path_of_climbs climbs, List.length_reverse, List.length_map, List.length_cons]

section Accepted

variable {workflow : Option String} {transcript : Transcript} {model : Model}
variable (accepted : ofTranscript workflow transcript = .ok model)
variable {before after : List Statement} {statement : Statement}
variable (shape : transcript.statements = before ++ statement :: after)

include accepted

/-- No scope is open at the end of an accepted transcript. -/
theorem openScopes_eq_nil :
    openScopes transcript.statements = [] := by
  obtain ⟨blocks, isRead, _⟩ := blocks_of_ofTranscript accepted
  obtain ⟨roles, consistOf⟩ := Transcript.blocks_of_ofStatements isRead
  rw [← consistOf]
  exact (OutlineReader.balanced_blocks roles).foldl_nest []

include shape

/-- A statement that makes a program stands as deep as the path of the program says. -/
theorem exists_only_openedBy
    {kind : ProgramKind}
    (isKind : ProgramKind.ofTag? statement.tag = some kind) :
    ∃ program,
      model.IsOnly (·.openedBy = statement.id) program ∧
        (model.path program.id).length = (openScopes before).length + 1 := by
  obtain ⟨nodes, formed⟩ := formedBy_of_ofTranscript accepted
  obtain ⟨sites, standsAmong⟩ := standsAmong_of_ofTranscript accepted
  have isMade : (statement.id, kind) ∈ transcript.statements.filterMap Statement.made? :=
    List.mem_filterMap.mpr ⟨statement, by simp [shape], by simp [made?, isKind]⟩
  rw [← standsAmong.map_made] at isMade
  obtain ⟨program, isProgram, pair⟩ := List.mem_map.mp isMade
  have openedBy : program.openedBy = statement.id := congrArg Prod.fst pair
  obtain ⟨site, standsIn, standsAt⟩ := standsAmong.exists_site isProgram
  obtain ⟨before', after', shape', around⟩ := standsIn.exists_before_opener
  obtain ⟨rfl, -, -⟩ :=
    Transcript.eq_of_statements_eq shape shape' (standsAt.openedBy.symm.trans openedBy)
  refine ⟨program, ⟨isProgram, openedBy, fun other isOther otherOpened => ?_⟩, ?_⟩
  · exact openedBy_ext accepted isOther isProgram (otherOpened.trans openedBy.symm)
  · rw [around, formed.length_path isProgram standsAt]

/-- Where a program is closed, its scope is the innermost open one. -/
theorem exists_site_of_closedBy
    {program : Program}
    (isProgram : program ∈ model.programs)
    (closedBy : program.closedBy = some statement.id) :
    ∃ site, program.StandsAt model site ∧ openScopes before = site.opener :: site.around := by
  obtain ⟨sites, standsAmong⟩ := standsAmong_of_ofTranscript accepted
  obtain ⟨site, standsIn, standsAt⟩ := standsAmong.exists_site isProgram
  obtain ⟨closer, isCloser, sameId⟩ :=
    Option.map_eq_some_iff.mp (standsAt.closedBy.symm.trans closedBy)
  obtain ⟨before', after', shape', innermost⟩ := standsIn.exists_before_closer isCloser
  obtain ⟨rfl, -, -⟩ := Transcript.eq_of_statements_eq shape shape' sameId
  exact ⟨site, standsAt, innermost⟩

/-- A statement that closes a scope stands behind as many open scopes as the path has names. -/
theorem exists_only_closedBy
    (closes : statement.tag.role = .closes) :
    ∃ program,
      model.IsOnly (·.closedBy = some statement.id) program ∧
        (model.path program.id).length = (openScopes before).length ∧
        openScopes before ≠ [] := by
  obtain ⟨nodes, formed⟩ := formedBy_of_ofTranscript accepted
  obtain ⟨sites, standsAmong⟩ := standsAmong_of_ofTranscript accepted
  obtain ⟨program, isProgram, closedBy⟩ :=
    standsAmong.exists_program_of_closes (by simp [shape]) closes
  obtain ⟨site, standsAt, innermost⟩ :=
    exists_site_of_closedBy accepted shape isProgram closedBy
  refine ⟨program, ⟨isProgram, closedBy, fun other isOther otherClosed => ?_⟩, ?_, ?_⟩
  · -- Both close the innermost scope, so they have the same opener, and this has one program.
    obtain ⟨otherSite, otherStandsAt, otherInnermost⟩ :=
      exists_site_of_closedBy accepted shape isOther otherClosed
    have sameOpener : otherSite.opener = site.opener :=
      (List.cons.inj (otherInnermost.symm.trans innermost)).1
    apply openedBy_ext accepted isOther isProgram
    rw [otherStandsAt.openedBy, sameOpener, standsAt.openedBy]
  · rw [innermost, formed.length_path isProgram standsAt, List.length_cons]
  · simp [innermost]

/-- The lines of a statement at the depth of the open scopes are those that the model tells. -/
theorem linesOf_skeletonLines
    (delimiter : String) :
    LinesOf model delimiter.toList before statement
      ((statement.skeletonLines (openScopes before).length).map fun line =>
        (line.render delimiter).toList) := by
  have isStatement : statement ∈ transcript.statements := by simp [shape]
  cases role : statement.tag.role with
  | opens =>
      obtain ⟨program, isOnly, path⟩ := exists_only_openedBy accepted shape
        (ProgramKind.ofTag?_of_opens role)
      simp only [skeletonLines, role, List.map_cons, List.map_nil, toList_render_some,
        toList_render_none]
      exact .opens role isOnly path
  | closes =>
      obtain ⟨program, isOnly, path, someOpen⟩ := exists_only_closedBy accepted shape role
      obtain ⟨opener, around, innermost⟩ := List.exists_cons_of_ne_nil someOpen
      rw [innermost, List.length_cons] at path ⊢
      simp only [skeletonLines, role, List.map_cons, List.map_nil, toList_render_some,
        toList_render_none, Nat.add_sub_cancel]
      exact .closes role isOnly path
  | calls =>
      obtain ⟨program, isOnly, path⟩ := exists_only_openedBy accepted shape
        (ProgramKind.ofTag?_of_calls role)
      simp only [skeletonLines, role, List.map_cons, List.map_nil, toList_render_some]
      exact .calls role isOnly path
  | declares direction =>
      simp only [skeletonLines, role, List.map_cons, List.map_nil, toList_render_some]
      exact .declares role
  | qualifies => exact absurd role (Transcript.role_of_mem_statements isStatement)

omit shape

/-- The lines of a skeleton from a statement on are those that the model tells. -/
theorem follows_lines
    {before statements : List Statement}
    (shape : transcript.statements = before ++ statements)
    (delimiter : String) :
    Follows model delimiter.toList before statements
      ((lines (openScopes before).length statements).map fun line =>
        (line.render delimiter).toList) := by
  -- Each statement is looked up in the whole transcript, so what came before has to grow.
  induction statements generalizing before with
  | nil => exact .nil
  | cons statement statements inductionHypothesis =>
      have nextDepth : statement.depthAfter (openScopes before).length =
          (openScopes (before ++ [statement])).length := by
        rw [length_openScopes, length_openScopes, List.foldl_append]
        rfl
      rw [lines, List.map_append, nextDepth]
      refine .cons (linesOf_skeletonLines accepted shape delimiter) (inductionHypothesis ?_)
      rw [shape, List.append_cons]

end Accepted

/-- The skeleton of a transcript is indented as the programs of a model are nested. -/
structure IndentsSkeleton
    (model : Model)
    (transcript : Transcript)
    (delimiter : String) :
    Prop where
  written : ∃ lines,
    (transcript.skeleton delimiter).toList.splitOn '\n' = lines ++ [[]] ∧
      Follows model delimiter.toList [] transcript.statements lines
  returns : transcript.statements.foldl depthAfter 0 = 0
  deep : ∀ before statement after,
    transcript.statements = before ++ statement :: after →
      statement.tag.role = .closes →
      0 < before.foldl depthAfter 0

/--
The skeleton of an accepted transcript without line feeds has lines that stand as deep as the model
tells.  The depth is zero again at the end, and where a scope is closed it is not zero before.
-/
theorem indentsSkeleton_of_ofTranscript
    {workflow : Option String}
    {transcript : Transcript}
    {model : Model}
    (accepted : ofTranscript workflow transcript = .ok model)
    (oneLine : ∀ mark ∈ transcript.marks, '\n' ∉ mark.text.toList)
    {delimiter : String}
    (delimiterOneLine : '\n' ∉ delimiter.toList) :
    model.IndentsSkeleton transcript delimiter where
  written := by
    refine ⟨_, ?_, follows_lines accepted rfl delimiter⟩
    have linesOneLine : ∀ line ∈ lines 0 transcript.statements, ∀ text,
        line.text = some text → '\n' ∉ text.toList := by
      intro line isLine text isText
      refine oneLine_of_mem_lines (fun mark isMark => ?_) isLine isText
      obtain ⟨statement, isStatement, ofStatement⟩ := List.mem_flatMap.mp isMark
      exact oneLine mark (Transcript.mem_of_mem_statements isStatement ofStatement)
    exact splitOn_join delimiterOneLine linesOneLine
  returns := by
    rw [← length_openScopes, openScopes_eq_nil accepted]
    rfl
  deep := by
    intro before statement after shape closes
    obtain ⟨_, _, _, someOpen⟩ := exists_only_closedBy accepted shape closes
    rw [← length_openScopes]
    exact List.length_pos_iff.mpr someOpen

/-- A scope with a port, a child and a call. -/
theorem exists_accepted_indented :
    ∃ transcript model,
      ofTranscript none transcript = .ok model ∧
        model.programs.map (fun program => model.path program.id) =
          [["a"], ["a", "b"], ["a", "f"]] ∧
        (∀ mark ∈ transcript.marks, '\n' ∉ mark.text.toList) ∧
        transcript.skeleton "#" =
          "# @begin a\n    #\n    # @in x\n    # @begin b\n        #\n        #\n    # @end b\n" ++
            "    # @call f\n    #\n# @end a\n" := by
  let entry : Tag × String → Entry := fun (tag, name) =>
    ⟨default, tag, tag.keyword, name, .identifier, none, none⟩
  refine ⟨Transcript.ofEntries ([(.begin, "a"), (.input, "x"), (.begin, "b"), (.finish, "b"),
    (.call, "f"), (.finish, "a")].map entry), _, rfl, ?_, ?_, ?_⟩
  · decide +kernel
  · decide +kernel
  · decide +kernel

/-- The skeleton of that transcript, whose call stands one deeper. -/
theorem indentsSkeleton_of_ofTranscript_nested :
    ∃ transcript model,
      ofTranscript none transcript = .ok model ∧
        model.programs.map (fun program => model.path program.id) =
          [["a"], ["a", "b"], ["a", "f"]] ∧
        transcript.skeleton "#" =
          "# @begin a\n    #\n    # @in x\n    # @begin b\n        #\n        #\n    # @end b\n" ++
            "    # @call f\n    #\n# @end a\n" ∧
        model.IndentsSkeleton transcript "#" := by
  obtain ⟨transcript, model, accepted, paths, oneLine, written⟩ := exists_accepted_indented
  exact ⟨transcript, model, accepted, paths, written,
    indentsSkeleton_of_ofTranscript accepted oneLine (by decide)⟩

end Model

end Flowmark
