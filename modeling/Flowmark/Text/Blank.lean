import Flowmark.Text.Ranges

namespace Flowmark.Text

/-! # Blank characters

Markup is trimmed and split at the characters with the Unicode property `White_Space`.  A text
here is the list of its characters.
-/

/-- The 25 characters with the property `White_Space`. -/
def blankRanges : List Range := [
  (0x9, 0xd), (0x20, 0x20), (0x85, 0x85), (0xa0, 0xa0), (0x1680, 0x1680), (0x2000, 0x200a),
  (0x2028, 0x2029), (0x202f, 0x202f), (0x205f, 0x205f), (0x3000, 0x3000)]

/-- A character is blank when it is white space in Unicode. -/
def isBlank
    (c : Char) :
    Bool :=
  inRanges blankRanges c

/-- Drop the blanks at the start of a text. -/
def trimStart
    (cs : List Char) :
    List Char :=
  cs.dropWhile isBlank

/-- Drop the blanks at the end of a text. -/
def trimEnd
    (cs : List Char) :
    List Char :=
  (cs.reverse.dropWhile isBlank).reverse

/-- Drop the blanks at both ends of a text. -/
def trim
    (cs : List Char) :
    List Char :=
  trimEnd (trimStart cs)

/-- The longest run without a blank at the start of a text. -/
def headWord
    (cs : List Char) :
    List Char :=
  cs.takeWhile (!isBlank ·)

/-- What follows the longest run without a blank at the start of a text. -/
def afterHeadWord
    (cs : List Char) :
    List Char :=
  cs.dropWhile (!isBlank ·)

/-- The number of bytes that a text takes in UTF-8. -/
def byteWidth : List Char → Nat
  | [] => 0
  | c :: rest => c.utf8Size + byteWidth rest

/-- The ranges of blanks are ascending and apart, none of them being empty. -/
theorem areAscending_blankRanges :
    areAscending blankRanges = true := by
  decide

/-- There are 25 blanks. -/
theorem rangeCount_blankRanges :
    rangeCount blankRanges = 25 := by
  decide

/-- Every white space character of ASCII is blank. -/
theorem isBlank_of_isWhitespace
    {c : Char}
    (white : c.isWhitespace = true) :
    isBlank c = true := by
  simp only [Char.isWhitespace, Bool.or_eq_true, decide_eq_true_eq] at white
  rcases white with ((rfl | rfl) | rfl) | rfl <;> rfl

/-- The first word and what follows it make up the text. -/
@[simp] theorem headWord_append_afterHeadWord
    (cs : List Char) :
    headWord cs ++ afterHeadWord cs = cs :=
  List.takeWhile_append_dropWhile

@[simp] theorem byteWidth_nil :
    byteWidth [] = 0 :=
  rfl

@[simp] theorem byteWidth_append
    (left right : List Char) :
    byteWidth (left ++ right) = byteWidth left + byteWidth right := by
  induction left with
  | nil => simp
  | cons c rest inductionHypothesis => simp [byteWidth, inductionHypothesis, Nat.add_assoc]

end Flowmark.Text
