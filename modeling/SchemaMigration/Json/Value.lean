import SchemaMigration.Json.Numeral

/-!
# JSON values

A value is a scalar, an array or an object.  Members keep their order and may
repeat a name, since what a repeated name means is for the reader of a record
to say.
-/

namespace SchemaMigration.Json

/-- A string whose escapes leave half of a surrogate pair alone is well formed
but has no text. -/
abbrev Text := Option String

inductive Scalar
  | null
  | bool (value : Bool)
  | number (numeral : Numeral)
  | string (text : Text)
deriving DecidableEq

inductive Value
  | scalar (scalar : Scalar)
  | array (items : List Value)
  | object (members : List (Text × Value))

namespace Value

abbrev null : Value := .scalar .null
abbrev bool (value : Bool) : Value := .scalar (.bool value)
abbrev string (text : String) : Value := .scalar (.string (some text))
abbrev int (n : Int) : Value := .scalar (.number (Numeral.ofInt n))

/-- A double; one that is not finite has no numeral and is written as null. -/
def real (x : Float) : Value :=
  match Number.finite? x with
  | none => null
  | some finite => .scalar (.number (Numeral.ofFinite finite))

/-- An object with the given members in order. -/
def record (members : List (String × Value)) : Value :=
  .object (members.map fun member => (some member.1, member.2))

end Value

end SchemaMigration.Json
