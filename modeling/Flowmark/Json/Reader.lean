import Flowmark.Json.Token

namespace Flowmark

/-! # Reading JSON

The tokens of a text are read one after another.  What is carried along is the arrays and objects
that are open and what may come next.  A text is read when its tokens make one value and no more.
-/

namespace Json

/-- An array or an object that is open while one of its values is read. -/
inductive Container where
  /-- An array with the items before the value. -/
  | array (items : List Json)
  /-- An object with the fields before the value, and the name of the value. -/
  | object (fields : List (Option String × Json)) (name : Option String)
  deriving Repr

/-- What may come next. -/
inductive Expectation where
  /-- A value. -/
  | value
  /-- The first item of an array, or its end. -/
  | firstItem
  /-- The first name in an object, or its end. -/
  | firstName
  /-- A further name in an object, after the fields read so far. -/
  | name (fields : List (Option String × Json))
  /-- The colon after a name. -/
  | colon (fields : List (Option String × Json)) (name : Option String)
  /-- What follows a whole value. -/
  | after (value : Json)
  deriving Repr

/-- The state while tokens are read: what may come next, and what is open, innermost first. -/
structure Reading where
  expectation : Expectation
  containers : List Container
  deriving Repr

namespace Reading

/-- The state before the first token. -/
def start : Reading where
  expectation := .value
  containers := []

/-- Read the first token of a value. -/
def beginValue?
    (containers : List Container) :
    Token → Option Reading
  | .openArray => some ⟨.firstItem, containers⟩
  | .openObject => some ⟨.firstName, containers⟩
  | .string content => some ⟨.after (.string content), containers⟩
  | .scalar value => some ⟨.after value, containers⟩
  | .closeArray | .closeObject | .colon | .comma => none

/-- Read one token. -/
def step? : Reading → Token → Option Reading
  | ⟨.value, containers⟩, token => beginValue? containers token
  | ⟨.firstItem, containers⟩, .closeArray => some ⟨.after (.array []), containers⟩
  | ⟨.firstItem, containers⟩, token => beginValue? (.array [] :: containers) token
  | ⟨.firstName, containers⟩, .closeObject => some ⟨.after (.object []), containers⟩
  | ⟨.firstName, containers⟩, .string name => some ⟨.colon [] name, containers⟩
  | ⟨.name fields, containers⟩, .string name => some ⟨.colon fields name, containers⟩
  | ⟨.colon fields name, containers⟩, .colon =>
      some ⟨.value, .object fields name :: containers⟩
  | ⟨.after value, .array items :: outer⟩, .comma =>
      some ⟨.value, .array (items ++ [value]) :: outer⟩
  | ⟨.after value, .array items :: outer⟩, .closeArray =>
      some ⟨.after (.array (items ++ [value])), outer⟩
  | ⟨.after value, .object fields name :: outer⟩, .comma =>
      some ⟨.name (fields ++ [(name, value)]), outer⟩
  | ⟨.after value, .object fields name :: outer⟩, .closeObject =>
      some ⟨.after (.object (fields ++ [(name, value)])), outer⟩
  | _, _ => none

/-- Read tokens one after another. -/
def run? : Reading → List Token → Option Reading
  | reading, [] => some reading
  | reading, token :: tokens =>
      match reading.step? token with
      | none => none
      | some reading => reading.run? tokens

/-- The value that is read, provided that nothing is open. -/
def finish? : Reading → Option Json
  | ⟨.after value, []⟩ => some value
  | _ => none

end Reading

/-- The value that a text writes. -/
def read?
    (text : List Char) :
    Option Json :=
  match tokens? text with
  | none => none
  | some tokens =>
      match Reading.start.run? tokens with
      | none => none
      | some reading => reading.finish?

end Json

end Flowmark
