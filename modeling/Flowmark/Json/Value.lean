namespace Flowmark

/-! # JSON values

Values of the data format JSON.  The fields of an object keep their order and may repeat a name.
A string literal can escape one half of a surrogate pair without the other; such a literal is well
formed but names no text, and its content is `none`.
-/

/-- A JSON value; a number is its mantissa times ten to the power of its exponent. -/
inductive Json where
  | null
  | bool (value : Bool)
  | number (mantissa exponent : Int)
  | string (content : Option String)
  | array (items : List Json)
  | object (fields : List (Option String × Json))
  deriving Repr, Inhabited

namespace Json

/-- A text as a string. -/
def text
    (content : String) :
    Json :=
  .string (some content)

/-- A natural number. -/
def nat
    (value : Nat) :
    Json :=
  .number value 0

/-- A value that may be absent, absence being `null`. -/
def optional
    (encode : α → Json) :
    Option α → Json
  | none => .null
  | some value => encode value

/-- A list of values. -/
def list
    (encode : α → Json)
    (values : List α) :
    Json :=
  .array (values.map encode)

/-- An object with named fields. -/
def record
    (fields : List (String × Json)) :
    Json :=
  .object (fields.map fun (name, value) => (some name, value))

end Json

end Flowmark
