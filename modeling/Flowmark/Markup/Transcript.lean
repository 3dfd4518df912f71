import Flowmark.Markup.Mark

namespace Flowmark

/-! # Transcripts

A transcript is the list of a run's marks, numbered from one in order.
-/

/-- The marks of a run; the numbers are the positions counted from one. -/
structure Transcript where
  marks : List Mark
  numbered : marks.map Mark.id = List.range' 1 marks.length
  deriving Repr, DecidableEq

namespace Transcript

/-- The transcript without marks. -/
def empty : Transcript where
  marks := []
  numbered := rfl

instance : Inhabited Transcript :=
  ⟨empty⟩

/-- The number of marks. -/
def size
    (transcript : Transcript) :
    Nat :=
  transcript.marks.length

/-- Whether there is no mark. -/
def isEmpty
    (transcript : Transcript) :
    Bool :=
  transcript.marks.isEmpty

/-- The number that the next mark will have. -/
def nextId
    (transcript : Transcript) :
    MarkId :=
  transcript.size + 1

/-- Add a mark at the end, under the next number. -/
def push
    (transcript : Transcript)
    (entry : Entry) :
    Transcript where
  marks := transcript.marks ++ [{ entry with id := transcript.nextId }]
  numbered := by
    simp [transcript.numbered, nextId, size, List.range'_1_concat, Nat.add_comm]

/-- The transcript of a list of contents in order. -/
def ofEntries
    (entries : List Entry) :
    Transcript :=
  entries.foldl push empty

/-- The mark with a number. -/
def get?
    (transcript : Transcript)
    (id : MarkId) :
    Option Mark :=
  id.index?.bind fun index => transcript.marks[index]?

/-- The primary marks in order. -/
def primaries
    (transcript : Transcript) :
    List Mark :=
  transcript.marks.filter Mark.isPrimary

/-- The numbers of the primary marks in order. -/
def primaryIds
    (transcript : Transcript) :
    List MarkId :=
  transcript.primaries.map Mark.id

/-- The marks directly after a numbered one that modify it, up to the first that does not. -/
def attached
    (transcript : Transcript) :
    MarkId → List Mark
  | 0 => []
  | id => (transcript.marks.drop id).takeWhile (·.qualifies = some id)

/-- A mark at a position has the number after that position. -/
theorem id_of_getElem?
    (transcript : Transcript)
    {index : Nat}
    {mark : Mark}
    (found : transcript.marks[index]? = some mark) :
    mark.id = index + 1 := by
  have inRange : index < transcript.marks.length := (List.getElem?_eq_some_iff.mp found).1
  have numbers : (transcript.marks.map Mark.id)[index]? = some mark.id := by
    simp [found]
  rw [transcript.numbered, List.getElem?_range' inRange] at numbers
  have sameNumber : 1 + 1 * index = mark.id := Option.some.inj numbers
  rw [← sameNumber, Nat.one_mul, Nat.add_comm]

/-- No two marks have the same number. -/
theorem nodup_map_id
    (transcript : Transcript) :
    (transcript.marks.map Mark.id).Nodup := by
  rw [transcript.numbered]
  exact List.nodup_range'

/-- A mark is found under its number. -/
theorem get?_id_of_mem
    (transcript : Transcript)
    {mark : Mark}
    (isMark : mark ∈ transcript.marks) :
    transcript.get? mark.id = some mark := by
  obtain ⟨index, found⟩ := List.mem_iff_getElem?.mp isMark
  rw [transcript.id_of_getElem? found]
  exact found

end Transcript

end Flowmark
