import Flowmark.Text.Blank

namespace Flowmark

/-! # Paths

A path is a text cut into parts by slashes.  Empty parts and the part `.` name nothing of their
own, so a path may end in a slash and still have the name before it as its file name.
-/

namespace Path

/-- Cut a text at every slash. -/
def parts : List Char → List (List Char)
  | [] => [[]]
  | c :: rest =>
      if c = '/' then
        [] :: parts rest
      else
        match parts rest with
        | [] => [[c]]
        | first :: others => (c :: first) :: others

/-- The parts that name something. -/
def names
    (path : List Char) :
    List (List Char) :=
  (parts path).filter fun part => part ≠ [] ∧ part ≠ ['.']

/-- The last name of a path, unless it leads to the parent directory. -/
def fileName?
    (path : List Char) :
    Option (List Char) :=
  (names path).getLast?.filter (· ≠ ['.', '.'])

/-- What follows the last point of a file name, unless that point leads the name. -/
def suffix?
    (name : List Char) :
    Option (List Char) :=
  match name.reverse.dropWhile (· ≠ '.') with
  | [] => none
  | [_] => none
  | _ => some (name.reverse.takeWhile (· ≠ '.')).reverse

/-- The extension of the file that a path names. -/
def extension?
    (path : List Char) :
    Option (List Char) :=
  (fileName? path).bind suffix?

/-- A file system takes a name of at most 255 bytes without the character zero. -/
def isAllowed
    (name : List Char) :
    Bool :=
  decide (Text.byteWidth name ≤ 255) && !name.contains '\x00'

/--
Whether a new file can be made at a path, given the directories that exist below the working
directory.  The path must end in the name of the file and take at most 4095 bytes, with the parts
that name nothing of their own counted in.  The working directory and those above it always exist.
-/
def isCreatable
    (directories : List (List (List Char)))
    (path : List Char) :
    Bool :=
  match (names path).reverse with
  | [] => false
  | name :: above =>
      let directory := above.reverse
      decide (Text.byteWidth path ≤ 4095) &&
        (parts path).getLast? == some name && isAllowed name &&
        (directory.all (· = ['.', '.']) || directories.contains directory)

end Path

end Flowmark
