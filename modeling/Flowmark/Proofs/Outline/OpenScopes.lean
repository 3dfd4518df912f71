import Flowmark.Proofs.Outline.Acceptance

namespace Flowmark

/-!
# Open scopes

The scopes that are open after some statements form a stack of openers.  Every statement of an
outline that makes a program has a site: it stands where the scopes around it in the outline are
those that are open, and a scope is closed by the first statement that fits.
-/

namespace Statement

/-- The openers of the open scopes, innermost first, after one more statement. -/
def nest
    (around : List Statement)
    (statement : Statement) :
    List Statement :=
  match statement.tag.role with
  | .opens => statement :: around
  | .closes => around.tail
  | .calls | .declares _ | .qualifies => around

/-- The openers of the scopes that statements leave open, innermost first. -/
def openScopes
    (statements : List Statement) :
    List Statement :=
  statements.foldl nest []

/-- Further statements are nested into the scopes that those before them leave open. -/
theorem openScopes_append
    (before after : List Statement) :
    openScopes (before ++ after) = after.foldl nest (openScopes before) :=
  List.foldl_append

/-- Balanced statements leave open what was open before them. -/
theorem Balanced.foldl_nest
    {statements : List Statement}
    (balanced : Balanced statements)
    (around : List Statement) :
    statements.foldl nest around = around := by
  induction balanced generalizing around with
  | nil => rfl
  | @item statement rest opensNone closesNone _ inductionHypothesis =>
      have same : nest around statement = around := by
        unfold nest
        split
        · contradiction
        · contradiction
        all_goals rfl
      rw [List.foldl_cons, same, inductionHypothesis]
  | @scope opener closer body rest opens _ closes _ bodyHypothesis inductionHypothesis =>
      have opened : nest around opener = opener :: around := by simp only [nest, opens]
      have closed : nest (opener :: around) closer = around := by
        simp only [nest, closes, List.tail_cons]
      rw [List.foldl_cons, opened, List.foldl_append, bodyHypothesis, List.foldl_cons, closed,
        inductionHypothesis]

/-- Balanced statements change nothing about the open scopes. -/
theorem Balanced.openScopes_append
    {statements : List Statement}
    (balanced : Balanced statements)
    (before : List Statement) :
    openScopes (before ++ statements) = openScopes before := by
  rw [Statement.openScopes_append, balanced.foldl_nest]

end Statement

open Statement

namespace OutlineReader

/-- The frames of a reader are the open scopes: a statement that is read nests them. -/
theorem openers_of_step
    {reader next : OutlineReader}
    {statement : Statement}
    (stepped : reader.step statement = .ok next) :
    next.frames.map Frame.opener = nest (reader.frames.map Frame.opener) statement := by
  cases steps_of_step stepped with
  | opens opens => simp only [nest, opens, openScope, List.map_cons]
  | calls calls frames =>
      simp only [nest, calls, frames]
      rfl
  | declares declares frames _ =>
      simp only [nest, declares, frames]
      rfl
  | closesBlock closes frames _ =>
      simp only [nest, closes, frames]
      rfl
  | closesScope closes frames _ =>
      simp only [nest, closes, frames]
      rfl
  | qualifies qualifies => simp only [nest, qualifies]

/-- The frames of a reader are the open scopes of all statements that are read. -/
theorem openers_of_run
    {reader final : OutlineReader}
    {statements : List Statement}
    (ran : reader.run statements = .ok final) :
    final.frames.map Frame.opener = statements.foldl nest (reader.frames.map Frame.opener) := by
  induction statements generalizing reader with
  | nil =>
      cases ran
      rfl
  | cons statement statements inductionHypothesis =>
      rw [run] at ran
      split at ran
      · cases ran
      · rename_i next stepped
        rw [inductionHypothesis ran, openers_of_step stepped, List.foldl_cons]

end OutlineReader

/-- A statement that makes a program, the openers of the scopes around it, innermost first, and for
a scope the statement that closes it. -/
structure Site where
  opener : Statement
  around : List Statement
  closer : Option Statement
  deriving Repr, DecidableEq

namespace Site

/-- How a site stands among statements. -/
inductive StandsIn
    (site : Site)
    (statements : List Statement) :
    Prop where
  | call
      {before after : List Statement}
      (shape : statements = before ++ site.opener :: after)
      (around : openScopes before = site.around)
      (calls : site.opener.tag.role = .calls)
      (noCloser : site.closer = none)
  | scope
      {before body after : List Statement}
      {closer : Statement}
      (shape : statements = before ++ site.opener :: (body ++ closer :: after))
      (around : openScopes before = site.around)
      (opens : site.opener.tag.role = .opens)
      (balanced : Balanced body)
      (closes : closer.tag.role = .closes)
      (isCloser : site.closer = some closer)

namespace StandsIn

variable {site : Site} {statements : List Statement}

/-- The scopes around a site are those that are open before it. -/
theorem exists_before_opener
    (standsIn : site.StandsIn statements) :
    ∃ before after,
      statements = before ++ site.opener :: after ∧ openScopes before = site.around := by
  cases standsIn with
  | call shape around => exact ⟨_, _, shape, around⟩
  | scope shape around => exact ⟨_, _, shape, around⟩

/-- Where the scope of a site is closed, it is the innermost of those that are open. -/
theorem exists_before_closer
    (standsIn : site.StandsIn statements)
    {closer : Statement}
    (isCloser : site.closer = some closer) :
    ∃ before after,
      statements = before ++ closer :: after ∧
        openScopes before = site.opener :: site.around := by
  cases standsIn with
  | call _ _ _ noCloser =>
      rw [noCloser] at isCloser
      cases isCloser
  | @scope before body after closer' shape around opens balanced _ isCloser' =>
      obtain rfl : closer' = closer := Option.some.inj (isCloser'.symm.trans isCloser)
      refine ⟨before ++ site.opener :: body, after, by simp [shape], ?_⟩
      rw [Statement.openScopes_append, List.foldl_cons, balanced.foldl_nest, around, nest, opens]

end StandsIn

end Site

namespace Outline

/-- The sites of an outline, given the openers of the scopes around it. -/
def sites
    (around : List Statement) :
    Outline → List Site
  | nil => []
  | port _ _ rest => rest.sites around
  | call site rest => ⟨site, around, none⟩ :: rest.sites around
  | scope opener body closer rest =>
      ⟨opener, around, some closer⟩ :: (body.sites (opener :: around) ++ rest.sites around)

/-- The sites of an outline stand among the statements of which it is a part. -/
theorem standsIn_of_mem_sites
    {outline : Outline}
    (roles : outline.HasRoles)
    {before : List Statement}
    {site : Site}
    (isSite : site ∈ outline.sites (openScopes before))
    (after : List Statement) :
    site.StandsIn (before ++ (outline.statements ++ after)) := by
  induction outline generalizing before after with
  | nil => cases isSite
  | port declaration direction rest inductionHypothesis =>
      have same : openScopes (before ++ [declaration]) = openScopes before := by
        rw [openScopes_append, List.foldl_cons, nest, roles.1]
        rfl
      rw [sites, ← same] at isSite
      simpa [statements] using inductionHypothesis roles.2 isSite after
  | call caller rest inductionHypothesis =>
      have same : openScopes (before ++ [caller]) = openScopes before := by
        rw [openScopes_append, List.foldl_cons, nest, roles.1]
        rfl
      rcases List.mem_cons.mp isSite with rfl | inRest
      · exact .call rfl rfl roles.1 rfl
      · rw [← same] at inRest
        simpa [statements] using inductionHypothesis roles.2 inRest after
  | scope opener body closer rest bodyHypothesis inductionHypothesis =>
      obtain ⟨opens, bodyRoles, closes, restRoles⟩ := roles
      have balanced := balanced_statements bodyRoles
      rcases List.mem_cons.mp isSite with rfl | inParts
      · have shape :
            before ++ ((Outline.scope opener body closer rest).statements ++ after) =
              before ++ opener :: (body.statements ++ closer :: (rest.statements ++ after)) := by
          simp [statements]
        exact .scope shape rfl opens balanced closes rfl
      rcases List.mem_append.mp inParts with inBody | inRest
      · have inside : openScopes (before ++ [opener]) = opener :: openScopes before := by
          rw [openScopes_append, List.foldl_cons, nest, opens]
          rfl
        rw [← inside] at inBody
        simpa [statements] using
          bodyHypothesis bodyRoles inBody (closer :: (rest.statements ++ after))
      · have scopeBalanced : Balanced (opener :: (body.statements ++ [closer])) :=
          .scope opens balanced closes .nil
        rw [← scopeBalanced.openScopes_append] at inRest
        simpa [statements] using inductionHypothesis restRoles inRest after

/-- What is made only of statements that make programs is made at the sites. -/
theorem filterMap_sites
    {β : Type}
    {make : Statement → Option β}
    (makesNone : ∀ statement : Statement,
      statement.tag.role ≠ .opens → statement.tag.role ≠ .calls → make statement = none)
    {outline : Outline}
    (roles : outline.HasRoles)
    (around : List Statement) :
    (outline.sites around).filterMap (fun site => make site.opener) =
      outline.statements.filterMap make := by
  induction outline generalizing around with
  | nil => rfl
  | port declaration direction rest inductionHypothesis =>
      have noProgram : make declaration = none :=
        makesNone _ (by simp [roles.1]) (by simp [roles.1])
      rw [sites, statements, List.filterMap_cons_none noProgram, inductionHypothesis roles.2]
  | call site rest inductionHypothesis =>
      simp only [sites, statements, List.filterMap_cons, inductionHypothesis roles.2]
  | scope opener body closer rest bodyHypothesis inductionHypothesis =>
      obtain ⟨_, bodyRoles, closes, restRoles⟩ := roles
      have noProgram : make closer = none := makesNone _ (by simp [closes]) (by simp [closes])
      simp only [sites, statements, List.filterMap_cons, List.filterMap_append, noProgram,
        bodyHypothesis bodyRoles, inductionHypothesis restRoles]

/-- What closes a scope closes that of a site. -/
theorem exists_site_of_closes
    {outline : Outline}
    (roles : outline.HasRoles)
    (around : List Statement)
    {closer : Statement}
    (isStatement : closer ∈ outline.statements)
    (closes : closer.tag.role = .closes) :
    ∃ site ∈ outline.sites around, site.closer = some closer := by
  induction outline generalizing around with
  | nil => cases isStatement
  | port declaration direction rest inductionHypothesis =>
      rcases List.mem_cons.mp isStatement with rfl | inRest
      · cases roles.1.symm.trans closes
      · exact inductionHypothesis roles.2 around inRest
  | call caller rest inductionHypothesis =>
      rcases List.mem_cons.mp isStatement with rfl | inRest
      · cases roles.1.symm.trans closes
      · obtain ⟨site, isSite, isCloser⟩ := inductionHypothesis roles.2 around inRest
        exact ⟨site, List.mem_cons_of_mem _ isSite, isCloser⟩
  | scope opener body other rest bodyHypothesis inductionHypothesis =>
      obtain ⟨opens, bodyRoles, _, restRoles⟩ := roles
      rcases List.mem_cons.mp isStatement with rfl | inside
      · cases opens.symm.trans closes
      rcases List.mem_append.mp inside with inBody | behind
      · obtain ⟨site, isSite, isCloser⟩ := bodyHypothesis bodyRoles (opener :: around) inBody
        exact ⟨site, List.mem_cons_of_mem _ (List.mem_append_left _ isSite), isCloser⟩
      rcases List.mem_cons.mp behind with rfl | inRest
      · exact ⟨_, List.mem_cons_self, rfl⟩
      · obtain ⟨site, isSite, isCloser⟩ := inductionHypothesis restRoles around inRest
        exact ⟨site, List.mem_cons_of_mem _ (List.mem_append_right _ isSite), isCloser⟩

end Outline

namespace Block

/-- The sites of a block. -/
def sites
    (block : Block) :
    List Site :=
  ⟨block.opener, [], some block.closer⟩ :: block.body.sites [block.opener]

/-- A block is the scope of which its body is the body. -/
theorem sites_eq
    (block : Block) :
    block.sites = (Outline.scope block.opener block.body block.closer .nil).sites [] := by
  rw [sites, Outline.sites, Outline.sites, List.append_nil]

/-- A block has the statements of the outline that is its one scope. -/
theorem statements_eq
    (block : Block) :
    block.statements =
      (Outline.scope block.opener block.body block.closer .nil).statements :=
  rfl

/-- A block with suitable tags is a scope with suitable tags. -/
theorem scope_hasRoles
    {block : Block}
    (roles : block.HasRoles) :
    (Outline.scope block.opener block.body block.closer .nil).HasRoles :=
  ⟨roles.opens, roles.body, roles.closes, trivial⟩

/-- The sites of blocks stand among the statements of these. -/
theorem standsIn_of_mem_sites
    {blocks : List Block}
    (roles : ∀ block ∈ blocks, block.HasRoles)
    {site : Site}
    (isSite : site ∈ blocks.flatMap sites) :
    site.StandsIn (blocks.flatMap statements) := by
  obtain ⟨block, isBlock, inBlock⟩ := List.mem_flatMap.mp isSite
  obtain ⟨earlier, later, rfl⟩ := List.append_of_mem isBlock
  obtain ⟨earlierRoles, restRoles⟩ := List.forall_mem_append.mp roles
  have blockRoles := scope_hasRoles (restRoles block List.mem_cons_self)
  have noneOpen : openScopes (earlier.flatMap statements) = [] :=
    (OutlineReader.balanced_blocks earlierRoles).foldl_nest []
  rw [sites_eq, ← noneOpen] at inBlock
  rw [List.flatMap_append, List.flatMap_cons, statements_eq]
  exact Outline.standsIn_of_mem_sites blockRoles inBlock _

/-- What is made only of statements that make programs is made at the sites of the blocks. -/
theorem filterMap_sites
    {β : Type}
    {make : Statement → Option β}
    (makesNone : ∀ statement : Statement,
      statement.tag.role ≠ .opens → statement.tag.role ≠ .calls → make statement = none)
    {blocks : List Block}
    (roles : ∀ block ∈ blocks, block.HasRoles) :
    (blocks.flatMap sites).filterMap (fun site => make site.opener) =
      (blocks.flatMap statements).filterMap make := by
  induction blocks with
  | nil => rfl
  | cons block blocks inductionHypothesis =>
      obtain ⟨blockRoles, restRoles⟩ := List.forall_mem_cons.mp roles
      rw [List.flatMap_cons, List.flatMap_cons, List.filterMap_append, List.filterMap_append,
        inductionHypothesis restRoles, sites_eq, statements_eq,
        Outline.filterMap_sites makesNone (scope_hasRoles blockRoles)]

/-- What closes a scope among the statements of blocks closes that of a site. -/
theorem exists_site_of_closes
    {blocks : List Block}
    (roles : ∀ block ∈ blocks, block.HasRoles)
    {closer : Statement}
    (isStatement : closer ∈ blocks.flatMap statements)
    (closes : closer.tag.role = .closes) :
    ∃ site ∈ blocks.flatMap sites, site.closer = some closer := by
  obtain ⟨block, isBlock, inBlock⟩ := List.mem_flatMap.mp isStatement
  rw [statements_eq] at inBlock
  obtain ⟨site, isSite, isCloser⟩ :=
    Outline.exists_site_of_closes (scope_hasRoles (roles block isBlock)) [] inBlock closes
  rw [← sites_eq] at isSite
  exact ⟨site, List.mem_flatMap.mpr ⟨block, isBlock, isSite⟩, isCloser⟩

end Block

end Flowmark
