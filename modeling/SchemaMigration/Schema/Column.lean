import SchemaMigration.Schema.Literal

/-!
# Columns

A column has a name, a type and flags.  Beside its definition it may carry
instructions for copying its data, which the next rebuild of its table obeys.
-/

namespace SchemaMigration

open SchemaMigration.Json

inductive ColumnType
  | identity
  | integer
  | text
  | real
  | blob
  | foreign
deriving DecidableEq

namespace ColumnType

/-- The type as SQL writes it. -/
def sql : ColumnType → String
  | identity | integer | foreign => "INTEGER"
  | text => "TEXT"
  | real => "REAL"
  | blob => "BLOB"

def name : ColumnType → String
  | identity => "identity"
  | integer => "integer"
  | text => "text"
  | real => "real"
  | blob => "blob"
  | foreign => "foreign"

def all : List ColumnType := [identity, integer, text, real, blob, foreign]

def ofName? (text : String) : Option ColumnType :=
  all.find? (·.name = text)

def toJson (type : ColumnType) : Value := .string type.name

def ofJson? (held : Bool) : Decoder ColumnType := Decoder.enumeration held ofName?

end ColumnType

/-- The definition of a column.  `references` names the table that a foreign
column points to; other columns keep it without effect. -/
structure Column where
  name : String
  type : ColumnType
  primaryKey : Bool := false
  autoIncrement : Bool := false
  notNull : Bool := false
  unique : Bool := false
  default : Option Literal := none
  references : Option String := none
deriving DecidableEq

namespace Column

def isIdentity (column : Column) : Bool := column.type = .identity

def isForeign (column : Column) : Bool := column.type = .foreign

/-- The table a foreign column points to. -/
def target? (column : Column) : Option String :=
  if column.isForeign then column.references else none

/-- The column after the table `old` took the name `new`. -/
def retarget (old new : String) (column : Column) : Column :=
  if column.isForeign && column.references = some old then
    { column with references := some new }
  else column

def toJson (column : Column) : Value :=
  .record ([("name", .string column.name), ("type", column.type.toJson),
      ("primary_key", .bool column.primaryKey),
      ("auto_increment", .bool column.autoIncrement),
      ("not_null", .bool column.notNull), ("unique", .bool column.unique)] ++
    (column.default.map fun value => ("default", value.toJson)).toList ++
    (column.references.map fun table => ("references", .string table)).toList)

def fields : List String :=
  ["name", "type", "primary_key", "auto_increment", "not_null", "unique", "default",
   "references"]

def ofJson? (held : Bool) : Decoder Column := fun value => do
  match (← Record.of? fields value).found with
  | [name, type, primaryKey, autoIncrement, notNull, unique, default, references] =>
      pure {
        name := ← Decoder.required Decoder.text name
        type := ← Decoder.required (ColumnType.ofJson? held) type
        primaryKey := ← Decoder.orElse false Decoder.flag primaryKey
        autoIncrement := ← Decoder.orElse false Decoder.flag autoIncrement
        notNull := ← Decoder.orElse false Decoder.flag notNull
        unique := ← Decoder.orElse false Decoder.flag unique
        default := ← Decoder.optional Literal.ofJson? default
        references := ← Decoder.optional Decoder.text references }
  | _ => none

end Column

/-- How the next rebuild fills a column: from another column of the stored
table, with a fallback in place of NULL, or both. -/
structure CopyParams where
  fillFrom : Option String := none
  coalesce : Option Literal := none
deriving DecidableEq

namespace CopyParams

def toJson (params : CopyParams) : Value :=
  .record ((params.fillFrom.map fun column => ("fill_from", .string column)).toList ++
    (params.coalesce.map fun value => ("coalesce", value.toJson)).toList)

def fields : List String := ["fill_from", "coalesce"]

def ofJson? : Decoder CopyParams := fun value => do
  match (← Record.of? fields value).found with
  | [fillFrom, coalesce] =>
      pure {
        fillFrom := ← Decoder.optional Decoder.text fillFrom
        coalesce := ← Decoder.optional Literal.ofJson? coalesce }
  | _ => none

end CopyParams

end SchemaMigration
