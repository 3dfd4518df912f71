import Flowmark.Location
import Flowmark.Tag

namespace Flowmark

/-! # Faults

A fault is what is wrong with the markup of a run: a place and a cause.  Every cause has a code,
and the code a category and a summary.
-/

/-- What is wrong at the place of a fault. -/
inductive Fault.Cause where
  /-- A segment starts with a token that is no keyword. -/
  | unknownKeyword (token : String)
  /-- Nothing follows a keyword that needs an argument. -/
  | missingArgument (tag : Tag) (expected : String)
  /-- A qualifier comes before any primary. -/
  | orphanQualifier (tag : Tag)
  /-- A scope is closed while none is open. -/
  | unmatchedEnd (name : String)
  /-- The innermost open scope is closed under another name. -/
  | mismatchedEnd (expected found : String) (openedAt : Location)
  /-- A scope is open when the markup ends. -/
  | unclosedScope (name : String)
  /-- A port or a call stands outside every scope. -/
  | outsideScope (tag : Tag) (name : String)
  /-- A scope declares one binding twice in one direction. -/
  | duplicateBinding (scope : String) (direction : Direction) (binding : String)
  deriving Repr, DecidableEq

/-- A fault in the markup, with the place at which it was found. -/
structure Fault where
  location : Location
  cause : Fault.Cause
  deriving Repr, DecidableEq

namespace Fault

/-- The stages of a run in which a fault can arise. -/
inductive Category where
  | extraction
  | scope
  | port
  deriving Repr, DecidableEq

/-- The words for a category. -/
def Category.text : Category → String
  | extraction => "extraction error"
  | scope => "scope error"
  | port => "port error"

namespace Cause

/-- The code of a cause. -/
def code : Cause → String
  | unknownKeyword .. => "E0101"
  | missingArgument .. => "E0102"
  | orphanQualifier .. => "E0103"
  | unmatchedEnd .. => "E0201"
  | mismatchedEnd .. => "E0202"
  | unclosedScope .. => "E0203"
  | outsideScope .. => "E0204"
  | duplicateBinding .. => "E0301"

/-- The category of a cause. -/
def category : Cause → Category
  | unknownKeyword .. | missingArgument .. | orphanQualifier .. => .extraction
  | unmatchedEnd .. | mismatchedEnd .. | unclosedScope .. | outsideScope .. => .scope
  | duplicateBinding .. => .port

/-- The short description that all faults with one code share. -/
def summary : Cause → String
  | unknownKeyword .. => "unrecognized keyword"
  | missingArgument .. => "missing argument"
  | orphanQualifier .. => "qualifier without a preceding annotation"
  | unmatchedEnd .. => "end without matching begin"
  | mismatchedEnd .. => "mismatched end"
  | unclosedScope .. => "unclosed scope"
  | outsideScope .. => "declaration outside any scope"
  | duplicateBinding .. => "duplicate port binding"

/-- Whether the scopes of the markup are out of balance. -/
def isStructural
    (cause : Cause) :
    Bool :=
  cause.category = .scope

/-- What a message says after the place of the fault. -/
def text : Cause → String
  | unknownKeyword token => "unrecognized keyword '" ++ token ++ "'"
  | missingArgument tag expected => tag.keyword ++ " requires a " ++ expected
  | orphanQualifier tag => tag.keyword ++ " does not follow an annotation it could qualify"
  | unmatchedEnd name => "@end " ++ name ++ " has no matching @begin"
  | mismatchedEnd expected found openedAt =>
      "@end " ++ found ++ " does not match @begin " ++ expected ++ " at " ++ openedAt.text
  | unclosedScope name => "@begin " ++ name ++ " is never closed by @end " ++ name
  | outsideScope tag name => tag.keyword ++ " " ++ name ++ " is not inside any @begin"
  | duplicateBinding scope direction binding =>
      direction.text ++ " '" ++ binding ++ "' is declared twice in " ++ scope

end Cause

/-- The message of a fault: its place and its cause. -/
def message
    (fault : Fault) :
    String :=
  fault.location.text ++ ": " ++ fault.cause.text

/-- The message of a fault with its code in front. -/
def report
    (fault : Fault) :
    String :=
  fault.cause.code ++ ": " ++ fault.message

end Fault

end Flowmark
