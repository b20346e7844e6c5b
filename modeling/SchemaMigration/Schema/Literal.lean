import SchemaMigration.Json.Record
import SchemaMigration.Text.Quoted

/-!
# Literals and bound values

A literal stands in a column's default or in a fallback; a bound value takes
the place of a question mark in a statement and may also be null.
-/

namespace SchemaMigration

open SchemaMigration.Json

inductive Literal
  | bool (value : Bool)
  | integer (value : Int)
  | real (value : Float)
  | text (value : String)
deriving DecidableEq

namespace Literal

/-- The literal as SQL writes it.  Doubles that are not finite have no literal
and are written as NULL. -/
def sql : Literal → String
  | bool value => if value then "1" else "0"
  | integer value => toString value
  | real value => if value.isFinite then Number.positional value else "NULL"
  | text value => Text.stringLiteral value

def toJson : Literal → Value
  | bool value => .bool value
  | integer value => .int value
  | real value => .real value
  | text value => .string value

/-- A numeral is an integer when it spells one of sixty-four bits, and a double
otherwise. -/
def ofNumeral? (numeral : Numeral) : Option Literal :=
  match Decoder.word (.scalar (.number numeral)) with
  | some n => some (integer n)
  | none => numeral.real?.map real

def ofJson? : Decoder Literal
  | .scalar (.bool value) => some (bool value)
  | .scalar (.number numeral) => ofNumeral? numeral
  | .scalar (.string value) => value.map text
  | _ => none

end Literal

/-- A value bound to a statement. -/
inductive BoundValue
  | null
  | literal (value : Literal)
deriving DecidableEq

namespace BoundValue

def toJson : BoundValue → Value
  | null => .null
  | literal value => value.toJson

def ofJson? : Decoder BoundValue
  | .scalar .null => some null
  | value => (Literal.ofJson? value).map literal

end BoundValue

end SchemaMigration
