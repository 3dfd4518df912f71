import Flowmark.Markup.Statement

namespace Flowmark

namespace Statement

/-!
# Nesting of statements

Which scope is open after some statements, and which ports it still holds, is said here of lists of
statements alone.  Counting openers and closers shows that the innermost open scope is unique.
-/

/-- Statements in which every opened scope is closed again, and no other scope is closed. -/
inductive Balanced : List Statement → Prop where
  | nil : Balanced []
  | item
      {statement : Statement}
      {rest : List Statement}
      (opensNone : statement.tag.role ≠ .opens)
      (closesNone : statement.tag.role ≠ .closes)
      (restBalanced : Balanced rest) :
      Balanced (statement :: rest)
  | scope
      {opener closer : Statement}
      {body rest : List Statement}
      (opens : opener.tag.role = .opens)
      (bodyBalanced : Balanced body)
      (closes : closer.tag.role = .closes)
      (restBalanced : Balanced rest) :
      Balanced (opener :: (body ++ closer :: rest))

/-- After some statements, the innermost open scope is the one of a given opener. -/
def InnermostOpen
    (before : List Statement)
    (opener : Statement) :
    Prop :=
  ∃ outside inside,
    before = outside ++ opener :: inside ∧ opener.tag.role = .opens ∧ Balanced inside

/-- A call takes over a port that is no result where only ports stand between the two. -/
def TakenOver
    (port : Statement)
    (later : List Statement) :
    Prop :=
  port.tag ≠ .result ∧
    ∃ ports site rest,
      later = ports ++ site :: rest ∧
        (∀ other ∈ ports, ∃ direction, other.tag.role = .declares direction) ∧
        site.tag.role = .calls

/--
After some statements, the innermost open scope still holds a port of a direction: every scope
opened since the port is closed, and no call has taken the port over.
-/
def StillHeld
    (before : List Statement)
    (direction : Direction)
    (port : Statement) :
    Prop :=
  ∃ earlier later,
    before = earlier ++ port :: later ∧
      port.tag.role = .declares direction ∧
      Balanced later ∧
      ¬ TakenOver port later

/-! Openers and closers are counted to compare positions. -/

/-- The number of statements with a role. -/
def count
    (role : Tag.Role)
    (statements : List Statement) :
    Nat :=
  statements.countP fun statement => statement.tag.role = role

@[simp] theorem count_append
    (role : Tag.Role)
    (before after : List Statement) :
    count role (before ++ after) = count role before + count role after :=
  List.countP_append

/-- A statement in front counts where it has the role. -/
theorem count_cons
    (role : Tag.Role)
    (statement : Statement)
    (rest : List Statement) :
    count role (statement :: rest) =
      count role rest + if statement.tag.role = role then 1 else 0 := by
  simp [count, List.countP_cons]

/-- Balanced statements behind balanced ones are balanced. -/
theorem Balanced.append
    {before after : List Statement}
    (beforeBalanced : Balanced before)
    (afterBalanced : Balanced after) :
    Balanced (before ++ after) := by
  induction beforeBalanced with
  | nil => exact afterBalanced
  | item opensNone closesNone _ inductionHypothesis =>
      exact .item opensNone closesNone inductionHypothesis
  | scope opens bodyBalanced closes _ _ inductionHypothesis =>
      rw [List.cons_append, List.append_assoc, List.cons_append]
      exact .scope opens bodyBalanced closes inductionHypothesis

/-- Balanced statements open as many scopes as they close. -/
theorem Balanced.count_eq
    {statements : List Statement}
    (balanced : Balanced statements) :
    count .opens statements = count .closes statements := by
  induction balanced with
  | nil => rfl
  | item opensNone closesNone _ inductionHypothesis =>
      rw [count_cons, count_cons, if_neg opensNone, if_neg closesNone, inductionHypothesis]
  | scope opens _ closes _ bodyCounts restCounts =>
      simp [count_cons, opens, closes, bodyCounts, restCounts]
      omega

/-- No end of balanced statements opens more scopes than it closes. -/
theorem Balanced.count_le
    {statements before after : List Statement}
    (balanced : Balanced statements)
    (shape : statements = before ++ after) :
    count .opens after ≤ count .closes after := by
  induction balanced generalizing before after with
  | nil =>
      obtain ⟨_, rfl⟩ := List.append_eq_nil_iff.mp shape.symm
      exact Nat.le_refl _
  | item opensNone closesNone restBalanced inductionHypothesis =>
      rcases List.cons_eq_append_iff.mp shape with ⟨rfl, rfl⟩ | ⟨before, rfl, restShape⟩
      · exact Nat.le_of_eq (Balanced.item opensNone closesNone restBalanced).count_eq
      · exact inductionHypothesis restShape
  | scope opens bodyBalanced closes restBalanced bodyHypothesis restHypothesis =>
      rcases List.cons_eq_append_iff.mp shape with ⟨rfl, rfl⟩ | ⟨before, rfl, innerShape⟩
      · exact Nat.le_of_eq (Balanced.scope opens bodyBalanced closes restBalanced).count_eq
      · rcases List.append_eq_append_iff.mp innerShape with
          ⟨skipped, rfl, tailShape⟩ | ⟨bodyEnd, bodyShape, rfl⟩
        · rcases List.cons_eq_append_iff.mp tailShape with ⟨rfl, rfl⟩ | ⟨skipped, rfl, restShape⟩
          · have restCounts := restBalanced.count_eq
            simp only [count_cons, closes, restCounts, reduceCtorEq, if_false, if_true]
            omega
          · exact restHypothesis restShape
        · have endCounts := bodyHypothesis bodyShape
          have restCounts := restBalanced.count_eq
          simp only [count_append, count_cons, closes, restCounts, reduceCtorEq, if_false, if_true]
          omega

/-- Balanced statements do not start with balanced ones that a closer follows. -/
theorem Balanced.ne_append_closer
    {statements before after : List Statement}
    {closer : Statement}
    (balanced : Balanced statements)
    (beforeBalanced : Balanced before)
    (closes : closer.tag.role = .closes) :
    statements ≠ before ++ closer :: after := by
  rintro rfl
  have counts := balanced.count_eq
  have beforeCounts := beforeBalanced.count_eq
  have afterCounts := @Balanced.count_le _ (before ++ [closer]) after balanced (by simp)
  simp only [count_append, count_cons, closes, reduceCtorEq, if_false, if_true] at counts
  omega

/-- Behind a statement that opens no scope, the rest of balanced statements is balanced. -/
theorem Balanced.of_item
    {statement : Statement}
    {rest : List Statement}
    (balanced : Balanced (statement :: rest))
    (opensNone : statement.tag.role ≠ .opens) :
    Balanced rest := by
  cases balanced with
  | item _ _ restBalanced => exact restBalanced
  | scope opens => exact absurd opens opensNone

/-- Balanced statements with an opener in front start with a whole scope. -/
theorem Balanced.exists_scope
    {opener : Statement}
    {rest : List Statement}
    (balanced : Balanced (opener :: rest))
    (opens : opener.tag.role = .opens) :
    ∃ body closer after,
      rest = body ++ closer :: after ∧
        Balanced body ∧
        closer.tag.role = .closes ∧
        Balanced after := by
  cases balanced with
  | item opensNone _ _ => exact absurd opens opensNone
  | scope _ bodyBalanced closes afterBalanced =>
      exact ⟨_, _, _, rfl, bodyBalanced, closes, afterBalanced⟩

/-- What follows balanced statements in balanced statements is balanced. -/
theorem Balanced.of_append
    {before after : List Statement}
    (beforeBalanced : Balanced before)
    (balanced : Balanced (before ++ after)) :
    Balanced after := by
  induction beforeBalanced with
  | nil => exact balanced
  | item opensNone _ _ inductionHypothesis =>
      rw [List.cons_append] at balanced
      exact inductionHypothesis (balanced.of_item opensNone)
  | @scope opener closer body rest opens bodyBalanced closes _ _ inductionHypothesis =>
      rw [List.cons_append, List.append_assoc, List.cons_append] at balanced
      obtain ⟨otherBody, otherCloser, otherRest, shape, otherBalanced, otherCloses, restBalanced⟩ :=
        balanced.exists_scope opens
      -- Each body ends at the first closer that no opener of it matches.
      rcases List.append_eq_append_iff.mp shape with
        ⟨between, rfl, tailShape⟩ | ⟨between, rfl, tailShape⟩
      · rcases List.cons_eq_append_iff.mp tailShape with ⟨rfl, headShape⟩ | ⟨_, rfl, _⟩
        · obtain ⟨_, rfl⟩ := List.cons.inj headShape
          exact inductionHypothesis restBalanced
        · exact absurd rfl (otherBalanced.ne_append_closer bodyBalanced closes)
      · rcases List.cons_eq_append_iff.mp tailShape with ⟨rfl, headShape⟩ | ⟨_, rfl, _⟩
        · obtain ⟨_, rfl⟩ := List.cons.inj headShape
          exact inductionHypothesis restBalanced
        · exact absurd rfl (bodyBalanced.ne_append_closer otherBalanced otherCloses)

/-- Balanced statements leave no scope open. -/
theorem Balanced.not_innermostOpen
    {statements : List Statement}
    (balanced : Balanced statements)
    (opener : Statement) :
    ¬ InnermostOpen statements opener := by
  rintro ⟨outside, inside, shape, opens, insideBalanced⟩
  have counts := balanced.count_le shape
  have insideCounts := insideBalanced.count_eq
  simp only [count_cons, opens, reduceCtorEq, if_false, if_true] at counts
  omega

/-- An opener before balanced statements is the only one whose scope is innermost. -/
theorem innermostOpen_iff
    {outside inside : List Statement}
    {opener : Statement}
    (opens : opener.tag.role = .opens)
    (insideBalanced : Balanced inside)
    (other : Statement) :
    InnermostOpen (outside ++ opener :: inside) other ↔ other = opener := by
  constructor
  · rintro ⟨otherOutside, otherInside, shape, otherOpens, otherBalanced⟩
    rcases List.append_eq_append_iff.mp shape with
      ⟨between, rfl, tailShape⟩ | ⟨between, rfl, tailShape⟩
    · rcases List.cons_eq_append_iff.mp tailShape with ⟨rfl, headShape⟩ | ⟨before, rfl, insideShape⟩
      · exact (List.cons.inj headShape).1
      · exact absurd ⟨before, otherInside, insideShape, otherOpens, otherBalanced⟩
          (insideBalanced.not_innermostOpen other)
    · rcases List.cons_eq_append_iff.mp tailShape with ⟨rfl, headShape⟩ | ⟨before, rfl, insideShape⟩
      · exact (List.cons.inj headShape).1.symm
      · exact absurd ⟨before, inside, insideShape, opens, insideBalanced⟩
          (otherBalanced.not_innermostOpen opener)
  · rintro rfl
    exact ⟨outside, inside, rfl, opens, insideBalanced⟩

/-- At most one scope is the innermost open one. -/
theorem InnermostOpen.unique
    {before : List Statement}
    {first second : Statement}
    (firstInnermost : InnermostOpen before first)
    (secondInnermost : InnermostOpen before second) :
    first = second := by
  obtain ⟨outside, inside, rfl, opens, insideBalanced⟩ := secondInnermost
  exact (innermostOpen_iff opens insideBalanced first).mp firstInnermost

/-! Ports that are held, by the statement that comes first. -/

@[simp] theorem not_stillHeld_nil
    (direction : Direction)
    (port : Statement) :
    ¬ StillHeld [] direction port := by
  rintro ⟨earlier, later, shape, _⟩
  simp at shape

/-- The port of a statement is held where no scope is open behind it and no call takes it over. -/
theorem stillHeld_cons
    (statement : Statement)
    (rest : List Statement)
    (direction : Direction)
    (port : Statement) :
    StillHeld (statement :: rest) direction port ↔
      port = statement ∧ statement.tag.role = .declares direction ∧ Balanced rest ∧
          ¬ TakenOver statement rest ∨
        StillHeld rest direction port := by
  constructor
  · rintro ⟨earlier, later, shape, declares, balanced, kept⟩
    rcases List.cons_eq_append_iff.mp shape with ⟨rfl, headShape⟩ | ⟨earlier, rfl, restShape⟩
    · obtain ⟨rfl, rfl⟩ := List.cons.inj headShape
      exact Or.inl ⟨rfl, declares, balanced, kept⟩
    · exact Or.inr ⟨earlier, later, restShape, declares, balanced, kept⟩
  · rintro (⟨rfl, declares, balanced, kept⟩ | ⟨earlier, later, rfl, declares, balanced, kept⟩)
    · exact ⟨[], rest, rfl, declares, balanced, kept⟩
    · exact ⟨statement :: earlier, later, rfl, declares, balanced, kept⟩

/-- No port from outside the innermost scope is held by it. -/
theorem stillHeld_of_opener
    {outside inside : List Statement}
    {opener : Statement}
    (opens : opener.tag.role = .opens)
    (insideBalanced : Balanced inside)
    (direction : Direction)
    (port : Statement) :
    StillHeld (outside ++ opener :: inside) direction port ↔ StillHeld inside direction port := by
  induction outside with
  | nil =>
      rw [List.nil_append, stillHeld_cons]
      constructor
      · rintro (⟨_, declares, _⟩ | held)
        · rw [opens] at declares
          cases declares
        · exact held
      · exact Or.inr
  | cons statement outside inductionHypothesis =>
      rw [List.cons_append, stillHeld_cons, inductionHypothesis]
      constructor
      · rintro (⟨_, _, balanced, _⟩ | held)
        · exact absurd ⟨outside, inside, rfl, opens, insideBalanced⟩
            (balanced.not_innermostOpen opener)
        · exact held
      · exact Or.inr

/-- No port of a closed scope is held by the scope around it. -/
theorem stillHeld_of_scope
    {opener closer : Statement}
    {body rest : List Statement}
    (opens : opener.tag.role = .opens)
    (bodyBalanced : Balanced body)
    (closes : closer.tag.role = .closes)
    (restBalanced : Balanced rest)
    (direction : Direction)
    (port : Statement) :
    StillHeld (opener :: (body ++ closer :: rest)) direction port ↔
      StillHeld rest direction port := by
  constructor
  · rintro ⟨earlier, later, shape, declares, balanced, kept⟩
    rcases List.cons_eq_append_iff.mp shape with ⟨rfl, headShape⟩ | ⟨earlier, rfl, innerShape⟩
    · obtain ⟨rfl, _⟩ := List.cons.inj headShape
      rw [opens] at declares
      cases declares
    · rcases List.append_eq_append_iff.mp innerShape with
        ⟨skipped, rfl, tailShape⟩ | ⟨bodyEnd, bodyShape, endShape⟩
      · rcases List.cons_eq_append_iff.mp tailShape with
          ⟨rfl, headShape⟩ | ⟨skipped, rfl, restShape⟩
        · obtain ⟨rfl, _⟩ := List.cons.inj headShape
          rw [closes] at declares
          cases declares
        · exact ⟨skipped, later, restShape, declares, balanced, kept⟩
      · rcases List.cons_eq_append_iff.mp endShape with
          ⟨rfl, headShape⟩ | ⟨between, rfl, laterShape⟩
        · obtain ⟨rfl, _⟩ := List.cons.inj headShape
          rw [closes] at declares
          cases declares
        · -- The closer would close a scope that is not opened after the port.
          have counts := balanced.count_eq
          have restCounts := restBalanced.count_eq
          have endCounts := @Balanced.count_le _ (earlier ++ [port]) between bodyBalanced
            (by rw [bodyShape, List.append_assoc]; rfl)
          simp only [laterShape, count_append, count_cons, closes, restCounts, reduceCtorEq,
            if_false, if_true] at counts
          omega
  · rintro ⟨earlier, later, rfl, declares, balanced, kept⟩
    exact ⟨opener :: (body ++ closer :: earlier), later, by simp, declares, balanced, kept⟩

end Statement

end Flowmark
