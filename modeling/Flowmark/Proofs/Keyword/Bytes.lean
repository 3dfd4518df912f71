import Flowmark.Keyword.Extent
import Flowmark.Text.Blank
import Mathlib.Data.List.Basic

namespace Flowmark

open Text

/-!
# Keywords compared byte by byte

A buffer can be compared with the keywords as bytes: keyword after keyword, each byte without regard
to the case of the letters `A` to `Z`, and no further than the first keyword that is the buffer.
The outcome is the extent of the buffer, for keywords of any characters and in any order.  A token
without a byte from `A` to `Z` is its own lower case and can be looked up as it stands.
-/

namespace Text

/-- The bytes of a text in UTF-8. -/
def bytes
    (text : List Char) :
    List UInt8 :=
  text.flatMap String.utf8EncodeChar

/-- A byte, in lower case where it is one of the letters `A` to `Z`. -/
def lowerByte
    (byte : UInt8) :
    UInt8 :=
  if 65 ≤ byte ∧ byte ≤ 90 then byte + 32 else byte

@[simp] theorem bytes_cons
    (c : Char)
    (rest : List Char) :
    bytes (c :: rest) = String.utf8EncodeChar c ++ bytes rest :=
  rfl

theorem bytes_append
    (left right : List Char) :
    bytes (left ++ right) = bytes left ++ bytes right :=
  List.flatMap_append

/-- Outside ASCII no byte is a letter. -/
theorem lowerByte_of_wide
    {byte : UInt8}
    (wide : 128 ≤ byte.toNat) :
    lowerByte byte = byte := by
  apply if_neg
  rintro ⟨_, letter⟩
  have small : byte.toNat ≤ 90 := UInt8.le_iff_toNat_le.mp letter
  omega

/-- All bytes of a character outside ASCII are outside ASCII. -/
theorem wide_of_mem_utf8EncodeChar
    {c : Char}
    (wide : 127 < c.toNat)
    {byte : UInt8}
    (member : byte ∈ String.utf8EncodeChar c) :
    128 ≤ byte.toNat := by
  have notNarrow : ¬ c.val.toNat ≤ 127 := Nat.not_le.mpr wide
  unfold String.utf8EncodeChar at member
  simp only [notNarrow, if_false] at member
  split at member
  · simp only [List.mem_cons, List.not_mem_nil, or_false] at member
    rcases member with rfl | rfl <;> simp only [UInt8.toNat_ofNat'] <;> omega
  · split at member
    · simp only [List.mem_cons, List.not_mem_nil, or_false] at member
      rcases member with rfl | rfl | rfl <;> simp only [UInt8.toNat_ofNat'] <;> omega
    · simp only [List.mem_cons, List.not_mem_nil, or_false] at member
      rcases member with rfl | rfl | rfl | rfl <;> simp only [UInt8.toNat_ofNat'] <;> omega

/-- An ASCII character is one byte, its code. -/
theorem utf8EncodeChar_of_narrow
    {c : Char}
    (narrow : c.toNat ≤ 127) :
    String.utf8EncodeChar c = [UInt8.ofNat c.toNat] :=
  if_pos narrow

/-- Folding the bytes of a character folds the character. -/
theorem utf8EncodeChar_toLower
    (c : Char) :
    String.utf8EncodeChar c.toLower = (String.utf8EncodeChar c).map lowerByte := by
  by_cases narrow : c.toNat ≤ 127
  · have sameByte : (UInt8.ofNat c.toNat).toNat = c.toNat := by
      rw [UInt8.toNat_ofNat']
      omega
    by_cases upper : 65 ≤ c.toNat ∧ c.toNat ≤ 90
    · have shifted := toNat_toLower_of_upper upper
      have isLetter : 65 ≤ UInt8.ofNat c.toNat ∧ UInt8.ofNat c.toNat ≤ 90 := by
        simpa [UInt8.le_iff_toNat_le, sameByte] using upper
      rw [utf8EncodeChar_of_narrow (by omega), utf8EncodeChar_of_narrow narrow, shifted,
        List.map_singleton, lowerByte, if_pos isLetter, UInt8.ofNat_add]
      rfl
    · have noLetter : ¬ (65 ≤ UInt8.ofNat c.toNat ∧ UInt8.ofNat c.toNat ≤ 90) := by
        simpa [UInt8.le_iff_toNat_le, sameByte] using upper
      rw [toLower_of_not_upper upper, utf8EncodeChar_of_narrow narrow, List.map_singleton,
        lowerByte, if_neg noLetter]
  · have isWide : 127 < c.toNat := Nat.lt_of_not_le narrow
    have unchanged : ∀ byte ∈ String.utf8EncodeChar c, lowerByte byte = id byte :=
      fun byte member => lowerByte_of_wide (wide_of_mem_utf8EncodeChar isWide member)
    rw [toLower_of_not_upper (by omega), List.map_congr_left unchanged, List.map_id]

/-- Folding the bytes of a text folds the text. -/
theorem bytes_foldCase
    (text : List Char) :
    bytes (foldCase text) = (bytes text).map lowerByte := by
  simp only [bytes, foldCase, List.flatMap_map, List.map_flatMap, utf8EncodeChar_toLower]

/-- Folding a text keeps the number of its bytes. -/
theorem length_bytes_foldCase
    (text : List Char) :
    (bytes (foldCase text)).length = (bytes text).length := by
  rw [bytes_foldCase, List.length_map]

/-- A text begins another one exactly when its bytes do. -/
theorem bytes_isPrefix_iff
    {text other : List Char} :
    bytes text <+: bytes other ↔ text <+: other := by
  constructor
  · rintro ⟨behind, shape⟩
    apply List.isPrefix_of_utf8Encode_append_eq_utf8Encode behind.toByteArray
    rw [List.utf8Encode, List.utf8Encode, ← List.toByteArray_append]
    exact congrArg List.toByteArray shape
  · rintro ⟨behind, rfl⟩
    rw [bytes_append]
    exact List.prefix_append _ _

/-- Texts with the same bytes are the same. -/
theorem bytes_inj
    {text other : List Char}
    (same : bytes text = bytes other) :
    text = other := by
  have begins : text <+: other := bytes_isPrefix_iff.mp (same ▸ List.prefix_refl _)
  have isBegun : other <+: text := bytes_isPrefix_iff.mp (same ▸ List.prefix_refl _)
  exact begins.eq_of_length_le isBegun.length_le

end Text

/--
Compare a buffer with keywords one after another, given what was found before.  The search ends at
the first keyword that is the buffer.
-/
def Extent.scan
    (buffer : List UInt8) :
    Extent → List (List UInt8) → Extent
  | found, [] => found
  | found, keyword :: keywords =>
      if buffer.length ≤ keyword.length ∧
          (keyword.take buffer.length).map lowerByte = buffer.map lowerByte then
        if buffer.length = keyword.length then .whole else scan buffer .begun keywords
      else
        scan buffer found keywords

namespace KeywordTable

/-- Look a token up as it stands, or in lower case where one of its bytes is a letter `A` to `Z`. -/
def lookUp?
    (table : KeywordTable)
    (token : List Char) :
    Option Tag :=
  if ∃ byte ∈ bytes token, 65 ≤ byte ∧ byte ≤ 90 then
    table.spellings.get? (foldCase token)
  else
    table.spellings.get? token

/-- Both ways to look a token up find its tag. -/
theorem lookUp?_eq_tag?
    (table : KeywordTable)
    (token : List Char) :
    table.lookUp? token = table.tag? token := by
  unfold lookUp?
  split
  · rfl
  · rename_i noCapital
    have unchanged : ∀ byte ∈ bytes token, lowerByte byte = id byte :=
      fun byte member => if_neg fun capital => noCapital ⟨byte, member, capital⟩
    have sameBytes : bytes (foldCase token) = bytes token := by
      rw [bytes_foldCase, List.map_congr_left unchanged, List.map_id]
    rw [tag?, bytes_inj sameBytes]

/-- A buffer fits a keyword byte by byte where the keyword begins with it up to letter case. -/
theorem fits_iff
    {buffer keyword : List Char}
    (folded : foldCase keyword = keyword) :
    (bytes buffer).length ≤ (bytes keyword).length ∧
        ((bytes keyword).take (bytes buffer).length).map lowerByte = (bytes buffer).map lowerByte ↔
      foldCase buffer <+: keyword := by
  rw [List.map_take, ← bytes_foldCase, ← bytes_foldCase, folded, ← length_bytes_foldCase buffer,
    ← bytes_isPrefix_iff, List.prefix_iff_eq_take, eq_comm, and_iff_right_iff_imp]
  intro isTaken
  rw [isTaken]
  exact List.length_take_le' _ _

/-- A search through folded keywords finds the buffer whole, begun or as before. -/
theorem scan_eq
    (buffer : List Char)
    (found : Extent)
    {keywords : List (List Char)}
    (folded : ∀ keyword ∈ keywords, foldCase keyword = keyword) :
    Extent.scan (bytes buffer) found (keywords.map bytes) =
      if foldCase buffer ∈ keywords then
        .whole
      else if keywords.any (foldCase buffer).isPrefixOf then
        .begun
      else
        found := by
  induction keywords generalizing found with
  | nil => rfl
  | cons keyword keywords inductionHypothesis =>
      obtain ⟨isFolded, restFolded⟩ := List.forall_mem_cons.mp folded
      have sameLength := (length_bytes_foldCase buffer).symm
      rw [List.map_cons, Extent.scan, inductionHypothesis _ restFolded,
        inductionHypothesis _ restFolded]
      by_cases begins : foldCase buffer <+: keyword
      · have isBegun : (foldCase buffer).isPrefixOf keyword = true :=
          List.isPrefixOf_iff_prefix.mpr begins
        rw [if_pos ((fits_iff isFolded).mpr begins)]
        by_cases isWhole : foldCase buffer = keyword
        · have isMember : foldCase buffer ∈ keyword :: keywords := isWhole ▸ List.mem_cons_self
          rw [if_pos (by rw [sameLength, isWhole]), if_pos isMember]
        · have longer : (bytes buffer).length ≠ (bytes keyword).length := by
            intro same
            rw [sameLength] at same
            exact isWhole (bytes_inj ((bytes_isPrefix_iff.mpr begins).eq_of_length same))
          rw [if_neg longer]
          simp [isWhole, isBegun]
      · have notBegun : (foldCase buffer).isPrefixOf keyword = false := by
          rw [← Bool.not_eq_true, List.isPrefixOf_iff_prefix]
          exact begins
        have isOther : foldCase buffer ≠ keyword := fun same => begins (same ▸ List.prefix_refl _)
        rw [if_neg (mt (fits_iff isFolded).mp begins)]
        simp [isOther, notBegun]

/-- Comparing a buffer with the keywords byte by byte gives its extent. -/
theorem scan_keywords
    (table : KeywordTable)
    (buffer : List Char) :
    Extent.scan (bytes buffer) .apart (table.keywords.map bytes) = table.extent buffer :=
  scan_eq buffer .apart table.folded

end KeywordTable

end Flowmark
