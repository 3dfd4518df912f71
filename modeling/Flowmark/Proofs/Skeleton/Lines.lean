import Flowmark.Comment
import Flowmark.Proofs.Markup.Placement
import Mathlib.Data.List.TakeWhile

namespace Flowmark

/-!
# Reading the lines of a skeleton

A skeleton is read back line by line: indentation, delimiter and the blank behind it are dropped.
The delimiter may start with blanks itself or consist of them, so the indentation is taken as long
as the delimiter still follows it.
-/

namespace SkeletonLine

/-- What stands behind a delimiter at the start of a line. -/
def afterDelimiter?
    (delimiter line : List Char) :
    Option (List Char) :=
  if delimiter.isPrefixOf line then some (line.drop delimiter.length) else none

/-- What stands behind the longest indentation that the delimiter follows, and the delimiter. -/
def afterOpening?
    (delimiter : List Char) :
    List Char → Option (List Char)
  | ' ' :: ' ' :: ' ' :: ' ' :: rest =>
      (afterOpening? delimiter rest).or
        (afterDelimiter? delimiter (' ' :: ' ' :: ' ' :: ' ' :: rest))
  | line => afterDelimiter? delimiter line

/-- A line without indentation, delimiter and the blank after it. -/
def content
    (delimiter line : List Char) :
    List Char :=
  match afterOpening? delimiter line with
  | none => line
  | some (' ' :: text) => text
  | some text => text

/-- The number of blanks of indentation at the start of a text. -/
def margin
    (cs : List Char) :
    Nat :=
  (cs.takeWhile (· = ' ')).length

@[simp] theorem margin_cons_space
    (cs : List Char) :
    margin (' ' :: cs) = margin cs + 1 := by
  simp [margin]

/-- Blanks in front widen the margin by their number. -/
theorem margin_replicate_append
    (width : Nat)
    (cs : List Char) :
    margin (List.replicate width ' ' ++ cs) = width + margin cs := by
  induction width with
  | zero => simp
  | succ width inductionHypothesis =>
      rw [List.replicate_succ, List.cons_append, margin_cons_space, inductionHypothesis]
      omega

/-- What stands behind a text adds at most its own margin. -/
theorem margin_append_le
    (front first second : List Char) :
    margin (front ++ first) ≤ margin (front ++ second) + margin first := by
  induction front with
  | nil => exact Nat.le_add_left _ _
  | cons c front inductionHypothesis =>
      by_cases space : c = ' '
      · subst space
        simp only [List.cons_append, margin_cons_space]
        omega
      · simp [margin, space]

/-- Behind a delimiter stands what follows it. -/
theorem afterDelimiter?_append
    (delimiter after : List Char) :
    afterDelimiter? delimiter (delimiter ++ after) = some after := by
  simp [afterDelimiter?]

/-- What stands behind a delimiter has it in front. -/
theorem eq_append_of_afterDelimiter?
    {delimiter line after : List Char}
    (found : afterDelimiter? delimiter line = some after) :
    line = delimiter ++ after := by
  unfold afterDelimiter? at found
  split at found
  · rename_i isPrefix
    cases found
    exact (List.prefix_iff_eq_append.mp (List.isPrefixOf_iff_prefix.mp isPrefix)).symm
  · cases found

/-- What stands behind an opening has indentation and the delimiter in front. -/
theorem shape_of_afterOpening?
    {delimiter line after : List Char}
    (found : afterOpening? delimiter line = some after) :
    ∃ width, line = List.replicate width ' ' ++ (delimiter ++ after) := by
  fun_induction afterOpening? delimiter line with
  | case1 rest inductionHypothesis =>
      rcases Option.or_eq_some_iff.mp found with deeper | ⟨_, here⟩
      · obtain ⟨width, shape⟩ := inductionHypothesis deeper
        exact ⟨width + 4, by rw [shape]; rfl⟩
      · exact ⟨0, by simpa using eq_append_of_afterDelimiter? here⟩
  | case2 line => exact ⟨0, by simpa using eq_append_of_afterDelimiter? found⟩

/-- A delimiter with at most one blank behind it is not found deeper in the line. -/
theorem afterOpening?_delimiter
    {delimiter after : List Char}
    (narrow : margin after ≤ 1) :
    afterOpening? delimiter (delimiter ++ after) = some after := by
  have here := afterDelimiter?_append delimiter after
  generalize whole : delimiter ++ after = line at *
  unfold afterOpening?
  split
  · rename_i rest
    have notDeeper : afterOpening? delimiter rest = none := by
      cases deeper : afterOpening? delimiter rest with
      | none => rfl
      | some other =>
          exfalso
          obtain ⟨width, shape⟩ := shape_of_afterOpening? deeper
          have bound := margin_append_le delimiter after other
          rw [whole, shape] at bound
          simp only [margin_cons_space, margin_replicate_append] at bound
          omega
    rw [notDeeper, here]
    rfl
  · exact here

/-- The delimiter of an indented line is found where it was written. -/
theorem afterOpening?_indented
    {delimiter after : List Char}
    (narrow : margin after ≤ 1)
    (depth : Nat) :
    afterOpening? delimiter (List.replicate (4 * depth) ' ' ++ (delimiter ++ after)) =
      some after := by
  induction depth with
  | zero => simpa using afterOpening?_delimiter narrow
  | succ depth inductionHypothesis =>
      rw [show 4 * (depth + 1) = 4 * depth + 1 + 1 + 1 + 1 from rfl]
      simp only [List.replicate_succ, List.cons_append]
      rw [afterOpening?, inductionHypothesis]
      rfl

/-- A line is its indentation, the delimiter and, where it has a text, a blank and the text. -/
theorem toList_render
    (delimiter : String)
    (line : SkeletonLine) :
    (line.render delimiter).toList =
      List.replicate (4 * line.depth) ' ' ++
        (delimiter.toList ++
          match line.text with
          | none => []
          | some text => ' ' :: text.toList) := by
  unfold render indent
  cases line.text <;> simp

/-- A line is read back as its text, which is empty or starts with something else than a blank. -/
theorem content_render
    (delimiter : String)
    {line : SkeletonLine}
    (starts : ∀ text, line.text = some text → margin text.toList = 0) :
    content delimiter.toList (line.render delimiter).toList = (line.text.getD "").toList := by
  rw [toList_render, content]
  cases shape : line.text with
  | none =>
      rw [afterOpening?_indented (by simp [margin])]
      rfl
  | some text =>
      rw [afterOpening?_indented (by simp [starts text shape])]
      rfl

end SkeletonLine

namespace Skeleton

/-- The lines of a skeleton as comments of consecutive lines, the first with a given number. -/
def comments
    (delimiter : String)
    (first : Nat)
    (skeleton : String) :
    List Comment :=
  ((skeleton.toList.splitOn '\n').zipIdx first).map fun (line, number) =>
    .onLine number (String.ofList (SkeletonLine.content delimiter.toList line))

/-- Lines without line feeds are found again by splitting at these. -/
theorem splitOn_flatMap
    {lines : List (List Char)}
    (noFeeds : ∀ line ∈ lines, '\n' ∉ line) :
    (lines.flatMap (· ++ ['\n'])).splitOn '\n' = lines ++ [[]] := by
  induction lines with
  | nil => rfl
  | cons line lines inductionHypothesis =>
      rw [List.flatMap_cons, List.append_assoc, List.singleton_append,
        List.splitOn_append_cons_self_of_not_mem (noFeeds line (by simp)),
        inductionHypothesis fun other member => noFeeds other (List.mem_cons_of_mem _ member)]
      rfl

/-- A skeleton splits into its lines, and an empty one comes at the end. -/
theorem splitOn_join
    {delimiter : String}
    (delimiterNoFeed : '\n' ∉ delimiter.toList)
    {lines : List SkeletonLine}
    (noFeeds : ∀ line ∈ lines, ∀ text, line.text = some text → '\n' ∉ text.toList) :
    (String.join (lines.map fun line => line.render delimiter ++ "\n")).toList.splitOn '\n' =
      (lines.map fun line => (line.render delimiter).toList) ++ [[]] := by
  have rendersNoFeed :
      ∀ rendered ∈ lines.map (fun line => (line.render delimiter).toList), '\n' ∉ rendered := by
    intro rendered member
    obtain ⟨line, inLines, rfl⟩ := List.mem_map.mp member
    rw [SkeletonLine.toList_render]
    simp only [List.mem_append, List.mem_replicate, not_or]
    refine ⟨fun indented => absurd indented.2 (by decide), delimiterNoFeed, ?_⟩
    cases shape : line.text with
    | none => simp
    | some text => simpa using noFeeds line inLines text shape
  have written :
      (String.join (lines.map fun line => line.render delimiter ++ "\n")).toList =
        (lines.map fun line => (line.render delimiter).toList).flatMap (· ++ ['\n']) := by
    rw [String.toList_join, List.flatMap_map, List.flatMap_map]
    simp
  rw [written, splitOn_flatMap rendersNoFeed]

/-- The comments of a skeleton have the texts of its lines, and an empty one comes at the end. -/
theorem texts_comments
    {delimiter : String}
    (delimiterNoFeed : '\n' ∉ delimiter.toList)
    {lines : List SkeletonLine}
    (starts : ∀ line ∈ lines, ∀ text, line.text = some text →
      SkeletonLine.margin text.toList = 0)
    (noFeeds : ∀ line ∈ lines, ∀ text, line.text = some text → '\n' ∉ text.toList)
    (first : Nat) :
    (comments delimiter first
        (String.join (lines.map fun line => line.render delimiter ++ "\n"))).map
        (fun comment => comment.text.toList) =
      lines.map (fun line => (line.text.getD "").toList) ++ [[]] := by
  have contents :
      (lines.map fun line => (line.render delimiter).toList).map
          (SkeletonLine.content delimiter.toList) =
        lines.map fun line => (line.text.getD "").toList := by
    rw [List.map_map]
    apply List.map_congr_left
    intro line member
    exact SkeletonLine.content_render delimiter (starts line member)
  have lastEmpty : SkeletonLine.content delimiter.toList [] = [] := by
    unfold SkeletonLine.content SkeletonLine.afterOpening? SkeletonLine.afterDelimiter?
    cases delimiter.toList <;> rfl
  unfold comments
  rw [splitOn_join delimiterNoFeed noFeeds, List.map_map]
  have numbersDropped : ∀ pieces : List (List Char),
      ((pieces.zipIdx first).map
          ((fun comment : Comment => comment.text.toList) ∘ fun (line, number) =>
            .onLine number (String.ofList (SkeletonLine.content delimiter.toList line)))) =
        pieces.map (SkeletonLine.content delimiter.toList) := by
    intro pieces
    have withNumbers :
        pieces.map (SkeletonLine.content delimiter.toList) =
          (pieces.zipIdx first).map fun numbered =>
            SkeletonLine.content delimiter.toList numbered.1 := by
      rw [← Function.comp_def, ← List.map_map, List.zipIdx_map_fst]
    rw [withNumbers]
    apply List.map_congr_left
    intro piece _
    simp [Comment.onLine]
  rw [numbersDropped, List.map_append, contents, List.map_singleton, lastEmpty]

/-- Comments of consecutive lines are in order already. -/
theorem sort_comments
    (delimiter : String)
    (first : Nat)
    (skeleton : String) :
    Comment.sort (comments delimiter first skeleton) = comments delimiter first skeleton := by
  unfold Comment.sort OrderKey.sortBy
  apply List.mergeSort_of_pairwise
  unfold comments
  rw [List.pairwise_map]
  have ascending :
      ((skeleton.toList.splitOn '\n').zipIdx first).Pairwise fun left right =>
        left.2 < right.2 := by
    rw [← List.pairwise_map, List.zipIdx_map_snd]
    exact List.pairwise_lt_range'
  exact ascending.imp fun before => by
    simp [Comment.onLine, Comment.key, OrderKey.le, before]

/-- The marks on each line of the skeleton of statements. -/
def groups
    (statements : List Statement) :
    List (List Mark) :=
  statements.flatMap fun statement =>
    match statement.tag.role with
    | .opens => [statement.marks, []]
    | .closes => [[], statement.marks]
    | _ => [statement.marks]

/-- The groups of lines have the marks of the statements, in order. -/
theorem flatten_groups
    (statements : List Statement) :
    (groups statements).flatten = statements.flatMap Statement.marks := by
  induction statements with
  | nil => rfl
  | cons statement statements inductionHypothesis =>
      unfold groups at inductionHypothesis ⊢
      rw [List.flatMap_cons, List.flatMap_cons, List.flatten_append, inductionHypothesis]
      cases statement.tag.role <;> simp

/-- The text of a line with given marks. -/
def textOf
    (group : List Mark) :
    Option String :=
  if group = [] then none else some (" ".intercalate (group.map Mark.text))

/-- The texts of lines are those of the groups of marks. -/
theorem map_text_lines
    (depth : Nat)
    (statements : List Statement) :
    (lines depth statements).map SkeletonLine.text = (groups statements).map textOf := by
  induction statements generalizing depth with
  | nil => rfl
  | cons statement statements inductionHypothesis =>
      unfold groups at inductionHypothesis ⊢
      rw [lines, List.map_append, List.flatMap_cons, List.map_append, inductionHypothesis,
        List.append_cancel_right_eq]
      have ownText : textOf statement.marks = some statement.text := by
        simp [textOf, Statement.marks, Statement.text]
      have noText : textOf [] = none := rfl
      unfold Statement.skeletonLines
      cases statement.tag.role <;> simp [ownText, noText]

/-- The text of a line is the texts of its marks, joined by single blanks. -/
theorem toList_textOf
    {group : List Mark}
    {text : String}
    (isText : textOf group = some text) :
    group ≠ [] ∧
      text.toList = [' '].intercalate (group.map fun mark => mark.text.toList) := by
  unfold textOf at isText
  split at isText
  · cases isText
  · rename_i nonempty
    cases isText
    refine ⟨nonempty, ?_⟩
    rw [String.toList_intercalate, List.map_map]
    rfl

/-- Marks without line feeds are written on one line. -/
theorem oneLine_textOf
    {group : List Mark}
    (oneLine : ∀ mark ∈ group, '\n' ∉ mark.text.toList)
    {text : String}
    (isText : textOf group = some text) :
    '\n' ∉ text.toList := by
  rw [(toList_textOf isText).2]
  clear isText
  intro member
  induction group with
  | nil => simp at member
  | cons mark rest inductionHypothesis =>
      obtain ⟨markOneLine, restOneLine⟩ := List.forall_mem_cons.mp oneLine
      cases rest with
      | nil => exact markOneLine (by simpa using member)
      | cons next rest =>
          rw [List.map_cons, List.map_cons, List.intercalate_cons_cons] at member
          simp only [List.mem_append, List.mem_singleton] at member
          rcases member with (inMark | isSpace) | inRest
          · exact markOneLine inMark
          · exact absurd isSpace (by decide)
          · exact inductionHypothesis restOneLine inRest

/-- A line of a skeleton that is not empty is that of a group of marks. -/
theorem exists_group_of_mem_lines
    {depth : Nat}
    {statements : List Statement}
    {line : SkeletonLine}
    (isLine : line ∈ lines depth statements)
    {text : String}
    (isText : line.text = some text) :
    ∃ group ∈ groups statements, textOf group = some text := by
  have inTexts : some text ∈ (lines depth statements).map SkeletonLine.text :=
    List.mem_map.mpr ⟨line, isLine, isText⟩
  rw [map_text_lines] at inTexts
  exact List.mem_map.mp inTexts

/-- Marks without line feeds give lines without line feeds. -/
theorem oneLine_of_mem_lines
    {depth : Nat}
    {statements : List Statement}
    (oneLine : ∀ mark ∈ statements.flatMap Statement.marks, '\n' ∉ mark.text.toList)
    {line : SkeletonLine}
    (isLine : line ∈ lines depth statements)
    {text : String}
    (isText : line.text = some text) :
    '\n' ∉ text.toList := by
  obtain ⟨group, isGroup, isGroupText⟩ := exists_group_of_mem_lines isLine isText
  refine oneLine_textOf (fun mark inGroup => oneLine mark ?_) isGroupText
  rw [← flatten_groups]
  exact List.mem_flatten.mpr ⟨group, isGroup, inGroup⟩

end Skeleton

end Flowmark
