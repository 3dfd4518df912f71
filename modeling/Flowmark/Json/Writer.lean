import Flowmark.Json.Value

namespace Flowmark

/-! # Writing JSON

A value is written in one of two layouts: compact, without any space, or indented, with one item
or field a line and two blanks for each level.  Strings escape quotes, backslashes and control
characters and nothing else.
-/

namespace Json

/-- A hexadecimal digit in lower case. -/
def hexDigit
    (n : Nat) :
    Char :=
  Nat.digitChar (n % 16)

/-- A character as it stands in a string literal. -/
def escape
    (c : Char) :
    List Char :=
  match c with
  | '"' => ['\\', '"']
  | '\\' => ['\\', '\\']
  | '\x08' => ['\\', 'b']
  | '\x0c' => ['\\', 'f']
  | '\n' => ['\\', 'n']
  | '\r' => ['\\', 'r']
  | '\t' => ['\\', 't']
  | c =>
      if c.toNat < 0x20 then
        ['\\', 'u', '0', '0', hexDigit (c.toNat / 16), hexDigit c.toNat]
      else
        [c]

/-- A string literal; content that is no text is written as half a surrogate pair. -/
def literal
    (content : Option String) :
    List Char :=
  match content with
  | some text => '"' :: (text.toList.flatMap escape ++ ['"'])
  | none => "\"\\ud800\"".toList

/-- An integer with its sign. -/
def integer : Int → List Char
  | .ofNat n => Nat.toDigits 10 n
  | .negSucc n => '-' :: Nat.toDigits 10 (n + 1)

/-- A number, with an exponent unless that is zero. -/
def numeral
    (mantissa exponent : Int) :
    List Char :=
  if exponent = 0 then integer mantissa else integer mantissa ++ 'e' :: integer exponent

/-- The space put between the parts of arrays and objects. -/
structure Layout where
  /-- The space before a part at a depth. -/
  gap : Nat → List Char
  /-- The space after a colon. -/
  afterColon : List Char

/-- The layout without any space. -/
def Layout.compact : Layout where
  gap _ := []
  afterColon := []

/-- The layout with a line for each part, indented by two blanks for each level. -/
def Layout.indented : Layout where
  gap depth := '\n' :: List.replicate (2 * depth) ' '
  afterColon := [' ']

mutual

/-- Write a value that stands at a depth. -/
def write
    (layout : Layout)
    (depth : Nat) :
    Json → List Char
  | .null => "null".toList
  | .bool true => "true".toList
  | .bool false => "false".toList
  | .number mantissa exponent => numeral mantissa exponent
  | .string content => literal content
  | .array [] => ['[', ']']
  | .array (item :: items) =>
      '[' :: (layout.gap (depth + 1) ++ write layout (depth + 1) item ++
        writeItems layout (depth + 1) items ++ layout.gap depth ++ [']'])
  | .object [] => ['\x7b', '\x7d']
  | .object (field :: fields) =>
      '\x7b' :: (layout.gap (depth + 1) ++ writeField layout (depth + 1) field ++
        writeFields layout (depth + 1) fields ++ layout.gap depth ++ ['\x7d'])

/-- Write items, each after a comma. -/
def writeItems
    (layout : Layout)
    (depth : Nat) :
    List Json → List Char
  | [] => []
  | item :: items =>
      ',' :: (layout.gap depth ++ write layout depth item ++ writeItems layout depth items)

/-- Write a field: its name, a colon and its value. -/
def writeField
    (layout : Layout)
    (depth : Nat) :
    Option String × Json → List Char
  | (name, value) => literal name ++ ':' :: (layout.afterColon ++ write layout depth value)

/-- Write fields, each after a comma. -/
def writeFields
    (layout : Layout)
    (depth : Nat) :
    List (Option String × Json) → List Char
  | [] => []
  | field :: fields =>
      ',' :: (layout.gap depth ++ writeField layout depth field ++
        writeFields layout depth fields)

end

/-- The text of a value in a layout. -/
def render
    (layout : Layout)
    (value : Json) :
    String :=
  String.ofList (value.write layout 0)

end Json

end Flowmark
