import Flowmark.Proofs.Markup.Attachment
import Flowmark.Proofs.Markup.Sequence

namespace Flowmark

open Text

/-!
# What comments are read as

Each segment says by itself what mark it makes, but for the primary that a qualifier modifies.
Reading comments succeeds exactly when every segment starts with a keyword and has an argument and
the first one stands for itself; otherwise the fault is that of the first segment which fails.
-/

namespace PlacedSegment

/-- The first word of a segment. -/
def token
    (placed : PlacedSegment) :
    List Char :=
  headWord (trimStart placed.segment.text)

/-- The arguments behind the first word of a segment. -/
def arguments
    (placed : PlacedSegment) :
    List Argument :=
  Argument.all (afterHeadWord (trimStart placed.segment.text))

/-- Every segment starts with a keyword and has an argument, and the first is no qualifier. -/
structure AllReadable
    (table : KeywordTable)
    (segments : List PlacedSegment) :
    Prop where
  keywords : ∀ placed ∈ segments, foldCase placed.token ∈ table.keywords
  arguments : ∀ placed ∈ segments, placed.arguments ≠ []
  opening : ∀ placed ∈ segments.head?, ∀ tag,
    table.tag? placed.token = some tag → tag.isQualifier = false

/-- A segment fails after those before it, for a cause. -/
inductive Rejected
    (table : KeywordTable)
    (earlier : List PlacedSegment)
    (placed : PlacedSegment) :
    Fault.Cause → Prop where
  | unknown
      (noKeyword : table.tag? placed.token = none) :
      Rejected table earlier placed (.unknownKeyword (String.ofList placed.token))
  | missing
      {tag : Tag}
      (isKeyword : table.tag? placed.token = some tag)
      (noArgument : placed.arguments = []) :
      Rejected table earlier placed (.missingArgument tag tag.expected)
  | orphan
      {tag : Tag}
      (isKeyword : table.tag? placed.token = some tag)
      (hasArgument : placed.arguments ≠ [])
      (qualifies : tag.isQualifier = true)
      (isFirst : earlier = []) :
      Rejected table earlier placed (.orphanQualifier tag)

/-- A fault is that of the first segment which fails, at the place of that segment. -/
inductive FirstRejected
    (table : KeywordTable)
    (segments : List PlacedSegment) :
    Fault → Prop where
  | intro
      {earlier later : List PlacedSegment}
      {placed : PlacedSegment}
      {cause : Fault.Cause}
      (shape : segments = earlier ++ placed :: later)
      (readable : AllReadable table earlier)
      (rejected : Rejected table earlier placed cause) :
      FirstRejected table segments ⟨placed.location, cause⟩

/-- The mark that a segment makes behind the marks before it. -/
structure IsMarkOf
    (table : KeywordTable)
    (earlier : List Mark)
    (placed : PlacedSegment)
    (mark : Mark) :
    Prop where
  number : mark.id = earlier.length + 1
  place : mark.location = placed.location
  keyword : mark.keyword = String.ofList placed.token
  tag : table.tag? placed.token = some mark.tag
  content : ∃ name details,
    placed.arguments = name :: details ∧
      mark.name = String.ofList name.text ∧
      mark.nameKind = name.nameKind ∧
      mark.description =
        if details = [] then
          none
        else
          some (" ".intercalate (details.map fun detail => String.ofList detail.text))
  primary : mark.isQualifier = false → mark.qualifies = none
  qualifier : mark.isQualifier = true →
    ∃ nearest,
      (earlier.filter Mark.isPrimary).getLast? = some nearest ∧
        mark.qualifies = some nearest.id

/-- Segments make marks, one each and in order, behind the marks before them. -/
inductive ReadsAs
    (table : KeywordTable) :
    (earlier : List Mark) → List PlacedSegment → List Mark → Prop where
  | nil
      {earlier : List Mark} :
      ReadsAs table earlier [] []
  | cons
      {earlier marks : List Mark}
      {placed : PlacedSegment}
      {segments : List PlacedSegment}
      {mark : Mark}
      (first : IsMarkOf table earlier placed mark)
      (rest : ReadsAs table (earlier ++ [mark]) segments marks) :
      ReadsAs table earlier (placed :: segments) (mark :: marks)

variable {table : KeywordTable}

/-- A segment is read by its first word and the arguments behind it. -/
theorem read_eq
    (placed : PlacedSegment) :
    Clause.read table placed.segment.text =
      match table.tag? placed.token with
      | none => .error (.unknownKeyword (String.ofList placed.token))
      | some tag =>
          match placed.arguments with
          | [] => .error (.missingArgument tag tag.expected)
          | name :: details => .ok { tag, keyword := placed.token, name, details } :=
  rfl

/-! ## The marks of segments -/

/-- A segment makes one mark only. -/
theorem IsMarkOf.unique
    {earlier : List Mark}
    {placed : PlacedSegment}
    {mark mark' : Mark}
    (isMark : IsMarkOf table earlier placed mark)
    (isMark' : IsMarkOf table earlier placed mark') :
    mark = mark' := by
  obtain ⟨name, details, arguments, sameName, sameKind, sameDescription⟩ := isMark.content
  obtain ⟨name', details', arguments', sameName', sameKind', sameDescription'⟩ := isMark'.content
  obtain ⟨rfl, rfl⟩ := List.cons.inj (arguments.symm.trans arguments')
  have sameTag : mark.tag = mark'.tag := Option.some.inj (isMark.tag.symm.trans isMark'.tag)
  have sameRole : mark.isQualifier = mark'.isQualifier := congrArg Tag.isQualifier sameTag
  have sameTarget : mark.qualifies = mark'.qualifies := by
    cases isQualifier : mark.isQualifier with
    | false =>
        rw [isMark.primary isQualifier, isMark'.primary (sameRole ▸ isQualifier)]
    | true =>
        obtain ⟨nearest, found, target⟩ := isMark.qualifier isQualifier
        obtain ⟨nearest', found', target'⟩ := isMark'.qualifier (sameRole ▸ isQualifier)
        rw [target, target', Option.some.inj (found.symm.trans found')]
  have sameNumber := isMark.number.trans isMark'.number.symm
  have samePlace := isMark.place.trans isMark'.place.symm
  have sameKeyword := isMark.keyword.trans isMark'.keyword.symm
  rcases mark with ⟨⟨_, _, _, _, _, _, _⟩, _⟩
  rcases mark' with ⟨⟨_, _, _, _, _, _, _⟩, _⟩
  simp only at *
  subst_vars
  rfl

/-- The first mark of all is no qualifier. -/
theorem IsMarkOf.isQualifier_eq_false
    {placed : PlacedSegment}
    {mark : Mark}
    (isMark : IsMarkOf table [] placed mark) :
    mark.isQualifier = false := by
  cases isQualifier : mark.isQualifier with
  | false => rfl
  | true =>
      obtain ⟨_, found, _⟩ := isMark.qualifier isQualifier
      cases found

/-- Segments make marks in one way only. -/
theorem ReadsAs.unique
    {earlier marks marks' : List Mark}
    {segments : List PlacedSegment}
    (readsAs : ReadsAs table earlier segments marks)
    (readsAs' : ReadsAs table earlier segments marks') :
    marks = marks' := by
  induction readsAs generalizing marks' with
  | nil => cases readsAs'; rfl
  | cons first _ inductionHypothesis =>
      cases readsAs' with
      | cons first' rest' =>
          obtain rfl := first.unique first'
          rw [inductionHypothesis rest']

/-- One more segment makes one more mark behind the others. -/
theorem ReadsAs.concat
    {earlier marks : List Mark}
    {segments : List PlacedSegment}
    {placed : PlacedSegment}
    {mark : Mark}
    (readsAs : ReadsAs table earlier segments marks)
    (last : IsMarkOf table (earlier ++ marks) placed mark) :
    ReadsAs table earlier (segments ++ [placed]) (marks ++ [mark]) := by
  induction readsAs with
  | nil =>
      rw [List.append_nil] at last
      exact .cons last .nil
  | cons first _ inductionHypothesis =>
      rw [← List.append_cons] at inductionHypothesis
      exact .cons first (inductionHypothesis last)

/-- Marks stand where their segments stand. -/
theorem ReadsAs.map_location
    {earlier marks : List Mark}
    {segments : List PlacedSegment}
    (readsAs : ReadsAs table earlier segments marks) :
    marks.map (fun mark => mark.location) = segments.map PlacedSegment.location := by
  induction readsAs with
  | nil => rfl
  | cons first _ inductionHypothesis =>
      rw [List.map_cons, List.map_cons, first.place, inductionHypothesis]

/-- Where marks are made of segments, the segments are readable. -/
theorem ReadsAs.allReadable
    {marks : List Mark}
    {segments : List PlacedSegment}
    (readsAs : ReadsAs table [] segments marks) :
    AllReadable table segments := by
  have each : ∀ earlier, ReadsAs table earlier segments marks → ∀ placed ∈ segments,
      foldCase placed.token ∈ table.keywords ∧ placed.arguments ≠ [] := by
    clear readsAs
    intro earlier readsAs
    induction readsAs with
    | nil => simp
    | cons first _ inductionHypothesis =>
        refine List.forall_mem_cons.mpr ⟨⟨?_, ?_⟩, inductionHypothesis⟩
        · rw [← table.isSome_tag?, first.tag]
          rfl
        · obtain ⟨name, details, arguments, _⟩ := first.content
          rw [arguments]
          exact List.cons_ne_nil _ _
  refine ⟨fun placed isPlaced => (each [] readsAs placed isPlaced).1,
    fun placed isPlaced => (each [] readsAs placed isPlaced).2, ?_⟩
  intro placed isFirst tag isKeyword
  cases readsAs with
  | nil => cases isFirst
  | @cons _ _ _ _ mark first _ =>
      cases isFirst
      rw [← Option.some.inj (first.tag.symm.trans isKeyword)]
      exact first.isQualifier_eq_false

/-! ## Faults -/

/-- A segment fails for one cause only. -/
theorem Rejected.unique
    {earlier : List PlacedSegment}
    {placed : PlacedSegment}
    {cause cause' : Fault.Cause}
    (rejected : Rejected table earlier placed cause)
    (rejected' : Rejected table earlier placed cause') :
    cause = cause' := by
  cases rejected <;> cases rejected' <;> simp_all

/-- A segment that fails is not among readable ones. -/
theorem Rejected.not_allReadable
    {earlier later : List PlacedSegment}
    {placed : PlacedSegment}
    {cause : Fault.Cause}
    (rejected : Rejected table earlier placed cause) :
    ¬ AllReadable table (earlier ++ placed :: later) := by
  intro readable
  have isPlaced : placed ∈ earlier ++ placed :: later := by simp
  cases rejected with
  | unknown noKeyword =>
      have hasTag := (table.isSome_tag? placed.token).mpr (readable.keywords placed isPlaced)
      rw [noKeyword] at hasTag
      cases hasTag
  | missing _ noArgument => exact readable.arguments placed isPlaced noArgument
  | orphan isKeyword _ qualifies isFirst =>
      subst isFirst
      rw [readable.opening placed rfl _ isKeyword] at qualifies
      cases qualifies

/-- Segments have one first fault only. -/
theorem FirstRejected.unique
    {segments : List PlacedSegment}
    {fault fault' : Fault}
    (first : FirstRejected table segments fault)
    (first' : FirstRejected table segments fault') :
    fault = fault' := by
  obtain ⟨shape, readable, rejected⟩ := first
  obtain ⟨shape', readable', rejected'⟩ := first'
  rw [shape] at shape'
  rcases List.append_eq_append_iff.mp shape' with ⟨between, rfl, tail⟩ | ⟨between, rfl, tail⟩
  · cases between with
    | nil =>
        rw [List.append_nil] at rejected'
        obtain ⟨rfl, _⟩ := List.cons.inj tail
        rw [rejected.unique rejected']
    | cons skipped between =>
        obtain ⟨rfl, _⟩ := List.cons.inj tail
        exact absurd readable' rejected.not_allReadable
  · cases between with
    | nil =>
        rw [List.append_nil] at rejected
        obtain ⟨rfl, _⟩ := List.cons.inj tail
        rw [rejected.unique rejected']
    | cons skipped between =>
        obtain ⟨rfl, _⟩ := List.cons.inj tail
        exact absurd readable rejected'.not_allReadable

/-- Where a segment fails, not all are readable. -/
theorem FirstRejected.not_allReadable
    {segments : List PlacedSegment}
    {fault : Fault}
    (first : FirstRejected table segments fault) :
    ¬ AllReadable table segments := by
  obtain ⟨rfl, _, rejected⟩ := first
  exact rejected.not_allReadable

end PlacedSegment

namespace Mark

/-- A mark is a primary or a qualifier. -/
theorem isPrimary_eq_not
    (mark : Mark) :
    mark.isPrimary = !mark.isQualifier :=
  rfl

/-- The latest primary among marks is the one that stands last. -/
theorem latestFrom_eq
    (marks : List Mark) :
    latestFrom none marks = (marks.filter Mark.isPrimary).getLast?.map Mark.id := by
  induction marks using List.reverseRecOn with
  | nil => rfl
  | append_singleton marks mark inductionHypothesis =>
      rw [latestFrom_append, List.filter_append, inductionHypothesis]
      cases isQualifier : mark.isQualifier <;>
        simp [latestFrom, isPrimary_eq_not, isQualifier]

end Mark

/-- The description of a clause is its details joined by single blanks, if it has any. -/
theorem Clause.map_description?
    (clause : Clause) :
    clause.description?.map String.ofList =
      if clause.details = [] then
        none
      else
        some (" ".intercalate (clause.details.map fun detail => String.ofList detail.text)) := by
  cases details : clause.details with
  | nil => simp [description?, details]
  | cons detail rest =>
      simp only [description?, details, Option.map_some, reduceCtorEq, if_false, Option.some.injEq]
      apply String.toList_injective
      rw [String.toList_ofList, String.toList_intercalate, List.map_map]
      simp [Function.comp_def]

/-- Where segments make marks, no primary is among the marks exactly when there is no segment. -/
theorem PlacedSegment.ReadsAs.filter_eq_nil_iff
    {table : KeywordTable}
    {segments : List PlacedSegment}
    {marks : List Mark}
    (readsAs : ReadsAs table [] segments marks) :
    marks.filter Mark.isPrimary = [] ↔ segments = [] := by
  cases readsAs with
  | nil => simp
  | @cons _ _ _ _ mark first _ =>
      simp [Mark.isPrimary_eq_not, first.isQualifier_eq_false]

namespace Extraction

open PlacedSegment

variable {table : KeywordTable}

/-- What is read so far are the marks of segments, and the latest primary is remembered. -/
structure HasRead
    (table : KeywordTable)
    (segments : List PlacedSegment)
    (extraction : Extraction) :
    Prop where
  marks : ReadsAs table [] segments extraction.transcript.marks
  attached : extraction.IsAttached

/-- Before any segment no marks are read. -/
theorem hasRead_start
    (table : KeywordTable) :
    HasRead table [] start where
  marks := .nil
  attached := isAttached_start

/-- Without a latest primary no segment is read. -/
theorem HasRead.latest_none_iff
    {segments : List PlacedSegment}
    {extraction : Extraction}
    (hasRead : HasRead table segments extraction) :
    extraction.latestPrimary = none ↔ segments = [] := by
  rw [hasRead.attached.latest, Mark.latestFrom_eq, Option.map_eq_none_iff,
    List.getLast?_eq_none_iff]
  exact hasRead.marks.filter_eq_nil_iff

/-- A segment that is read adds its mark. -/
theorem HasRead.addSegment
    {segments : List PlacedSegment}
    {extraction next : Extraction}
    (hasRead : HasRead table segments extraction)
    {placed : PlacedSegment}
    (added : extraction.addSegment table placed.location placed.segment = .ok next) :
    HasRead table (segments ++ [placed]) next := by
  have nextAttached := hasRead.attached.addSegment added
  obtain ⟨clause, readsAs, addedClause⟩ := shape_of_addSegment added
  obtain ⟨mark, marks, number, entry, _, attached⟩ := shape_of_addClause addedClause
  obtain ⟨tagged, keyword, arguments⟩ := Clause.read_eq_ok_iff.mp readsAs
  refine ⟨?_, nextAttached⟩
  rw [marks]
  refine hasRead.marks.concat ?_
  rw [hasRead.attached.latest, Mark.latestFrom_eq] at attached
  simp only [Mark.AttachedFrom] at attached
  exact {
    number := number
    place := congrArg Entry.location entry
    keyword := by
      rw [show mark.keyword = String.ofList clause.keyword from congrArg Entry.keyword entry,
        ← keyword]
      rfl
    tag := by
      rw [show mark.tag = clause.tag from congrArg Entry.tag entry]
      exact tagged
    content := by
      refine ⟨clause.name, clause.details, arguments, congrArg Entry.name entry,
        congrArg Entry.nameKind entry, ?_⟩
      rw [← Clause.map_description?]
      exact congrArg Entry.description entry
    primary := by
      intro isPrimary
      rw [if_neg (by simp [isPrimary])] at attached
      exact attached.1
    qualifier := by
      intro isQualifier
      rw [if_pos isQualifier] at attached
      obtain ⟨present, target, _⟩ := attached
      obtain ⟨nearest, found⟩ := Option.ne_none_iff_exists'.mp fun noPrimary =>
        present (Option.map_eq_none_iff.mpr noPrimary)
      exact ⟨nearest, found, by rw [target, found, Option.map_some]⟩ }

/-- A segment that is not read fails after those before it. -/
theorem HasRead.rejected
    {segments : List PlacedSegment}
    {extraction : Extraction}
    (hasRead : HasRead table segments extraction)
    {placed : PlacedSegment}
    {fault : Fault}
    (failed : extraction.addSegment table placed.location placed.segment = .error fault) :
    fault.location = placed.location ∧ Rejected table segments placed fault.cause := by
  rw [Extraction.addSegment, read_eq] at failed
  cases tagged : table.tag? placed.token with
  | none =>
      rw [tagged] at failed
      cases failed
      exact ⟨rfl, .unknown tagged⟩
  | some tag =>
      cases arguments : placed.arguments with
      | nil =>
          rw [tagged, arguments] at failed
          cases failed
          exact ⟨rfl, .missing tagged arguments⟩
      | cons name details =>
          rw [tagged, arguments] at failed
          simp only [addClause] at failed
          split at failed
          · rename_i qualifies
            split at failed
            · rename_i noPrimary
              cases failed
              exact ⟨rfl, .orphan tagged (by simp [arguments]) qualifies
                (hasRead.latest_none_iff.mp noPrimary)⟩
            · cases failed
          · cases failed

/-- Segments are read to the end, or up to the first that fails. -/
theorem HasRead.read_outcome
    {done : List PlacedSegment}
    {extraction : Extraction}
    (hasRead : HasRead table done extraction)
    (segments : List PlacedSegment) :
    (∃ final,
      extraction.read table segments = .ok final ∧ HasRead table (done ++ segments) final) ∨
      ∃ fault,
        extraction.read table segments = .error fault ∧
          FirstRejected table (done ++ segments) fault := by
  induction segments generalizing done extraction with
  | nil => exact Or.inl ⟨extraction, rfl, by rwa [List.append_nil]⟩
  | cons placed segments inductionHypothesis =>
      rw [Extraction.read]
      cases added : extraction.addSegment table placed.location placed.segment with
      | error fault =>
          obtain ⟨location, cause⟩ := fault
          obtain ⟨rfl, rejected⟩ := hasRead.rejected added
          exact Or.inr ⟨_, rfl, .intro rfl hasRead.marks.allReadable rejected⟩
      | ok next =>
          have outcome := inductionHypothesis (hasRead.addSegment added)
          rw [← List.append_cons] at outcome
          exact outcome

end Extraction

namespace Transcript

open PlacedSegment

/-- A transcript is determined by its marks. -/
theorem ext_of_marks
    {first second : Transcript}
    (same : first.marks = second.marks) :
    first = second := by
  rcases first with ⟨marks, _⟩
  rcases second with ⟨marks', _⟩
  cases same
  rfl

/-- Comments are read as marks to the end, or up to the first segment that fails. -/
theorem readsAs_or_firstRejected
    (table : KeywordTable)
    (comments : List Comment) :
    (∃ transcript,
      ofComments table comments = .ok transcript ∧
        ReadsAs table [] (table.placedSegments comments) transcript.marks) ∨
      ∃ fault,
        ofComments table comments = .error fault ∧
          FirstRejected table (table.placedSegments comments) fault := by
  rw [ofComments_eq_read]
  rcases (Extraction.hasRead_start table).read_outcome (table.placedSegments comments) with
    ⟨final, isRead, hasRead⟩ | ⟨fault, failed, first⟩
  · exact Or.inl ⟨final.transcript, by rw [isRead]; rfl, hasRead.marks⟩
  · exact Or.inr ⟨fault, by rw [failed]; rfl, first⟩

/--
Comments have a transcript exactly when every segment of them, taken in the order of the comments'
keys, starts with a keyword and has an argument, and the first one is no qualifier.  The transcript
has the mark of each segment in order; otherwise the fault is that of the first segment that fails.
-/
theorem ofComments_outcome
    (table : KeywordTable)
    (comments : List Comment) :
    ((∃ transcript, ofComments table comments = .ok transcript) ↔
        AllReadable table (table.placedSegments comments)) ∧
      (∀ transcript,
        ofComments table comments = .ok transcript ↔
          ReadsAs table [] (table.placedSegments comments) transcript.marks) ∧
        ∀ fault,
          ofComments table comments = .error fault ↔
            FirstRejected table (table.placedSegments comments) fault := by
  rcases readsAs_or_firstRejected table comments with
    ⟨read, isRead, readsAs⟩ | ⟨fault, failed, first⟩
  · rw [isRead]
    refine ⟨⟨fun _ => readsAs.allReadable, fun _ => ⟨_, rfl⟩⟩, ?_, ?_⟩
    · intro transcript
      constructor
      · rintro ⟨⟩
        exact readsAs
      · intro readsAs'
        exact congrArg Except.ok (ext_of_marks (readsAs.unique readsAs'))
    · intro fault
      exact ⟨nofun, fun first => absurd readsAs.allReadable first.not_allReadable⟩
  · rw [failed]
    refine ⟨⟨nofun, fun readable => absurd readable first.not_allReadable⟩, ?_, ?_⟩
    · intro transcript
      exact ⟨nofun, fun readsAs => absurd readsAs.allReadable first.not_allReadable⟩
    · intro other
      constructor
      · rintro ⟨⟩
        exact first
      · intro otherFirst
        exact congrArg Except.error (first.unique otherFirst)

end Transcript

end Flowmark
