import SchemaMigration.Change.Draft
import SchemaMigration.Compilation

/-!
# Operations of a plan

An operation is a change of a plan as data.  It is declared through the drafts
of its table and column.
-/

namespace SchemaMigration

open SchemaMigration.Json

inductive Operation
  | createTable (table : String) (columns : List Column)
  | dropTable (table : String)
  | renameTable (table new : String)
  | addColumn (table : String) (column : Column) (params : Option CopyParams)
  | changeColumn (table name : String) (definition : Option Column)
      (params : Option CopyParams)
  | dropColumn (table name : String)
  | renameColumn (table old new : String)
  | sql (query : String) (values : List BoundValue)
deriving DecidableEq

/-- Declares a call on a table and gives the name for later calls. -/
def Compilation.declare (compilation : Compilation) (table : String) (call : TableCall) :
    Except MigrationError (Compilation × String) := do
  let compilation ← compilation.enqueue table call.action
  pure (compilation, call.nameAfter table)

namespace Operation

/-- The settings that a definition and parameters amount to. -/
def settings (definition : Option Column) (params : Option CopyParams) :
    List ColumnSetting :=
  (definition.map .definition).toList ++ (params.map .params).toList

/-- Carries out an operation in the current migration. -/
def apply (compilation : Compilation) : Operation → Except MigrationError Compilation
  | createTable table columns => declare table (.create columns)
  | dropTable table => declare table .drop
  | renameTable table new => declare table (.rename new)
  | addColumn table column params =>
      declare table (.column column.name (settings (some column) params) .create)
  | changeColumn table name definition params =>
      declare table (.column name (settings definition params) .change)
  | dropColumn table name => declare table (.column name [] .drop)
  | renameColumn table old new => declare table (.column old [] (.rename new))
  | sql query values => compilation.addStep (.sql query values)
where
  declare (table : String) (call : TableCall) : Except MigrationError Compilation :=
    (compilation.declare table call).map (·.1)

/-- A value that may be absent, which is written as null. -/
def orNull (value : Option Value) : Value := value.getD .null

/-- The name of an operation and the members that it is written with. -/
def named : Operation → String × List (String × Value)
  | createTable table columns =>
      ("create_table", [("table", .string table),
        ("columns", .array (columns.map Column.toJson))])
  | dropTable table => ("drop_table", [("table", .string table)])
  | renameTable table new =>
      ("rename_table", [("table", .string table), ("new_name", .string new)])
  | addColumn table column params =>
      ("add_column", [("table", .string table), ("column", column.toJson),
        ("params", orNull (params.map CopyParams.toJson))])
  | changeColumn table name definition params =>
      ("change_column", [("table", .string table), ("name", .string name),
        ("column", orNull (definition.map Column.toJson)),
        ("params", orNull (params.map CopyParams.toJson))])
  | dropColumn table name =>
      ("drop_column", [("table", .string table), ("name", .string name)])
  | renameColumn table old new =>
      ("rename_column", [("table", .string table), ("old_name", .string old),
        ("new_name", .string new)])
  | sql query values =>
      ("sql", [("query", .string query), ("values", .array (values.map BoundValue.toJson))])

def toJson (operation : Operation) : Value :=
  .record (("op", .string operation.named.1) :: operation.named.2)

/-- The fields of the operations of a name. -/
def fields : String → List String
  | "create_table" => ["table", "columns"]
  | "drop_table" => ["table"]
  | "rename_table" => ["table", "new_name"]
  | "add_column" => ["table", "column", "params"]
  | "change_column" => ["table", "name", "column", "params"]
  | "drop_column" => ["table", "name"]
  | "rename_column" => ["table", "old_name", "new_name"]
  | "sql" => ["query", "values"]
  | _ => []

/-- The operation of a name with the values found for its fields. -/
def ofFields? : String → List (Option Value) → Option Operation
  | "create_table", [table, columns] => do
      pure (createTable (← Decoder.required Decoder.text table)
        (← Decoder.required (Decoder.list (Column.ofJson? true)) columns))
  | "drop_table", [table] => do
      pure (dropTable (← Decoder.required Decoder.text table))
  | "rename_table", [table, new] => do
      pure (renameTable (← Decoder.required Decoder.text table)
        (← Decoder.required Decoder.text new))
  | "add_column", [table, column, params] => do
      pure (addColumn (← Decoder.required Decoder.text table)
        (← Decoder.required (Column.ofJson? true) column)
        (← Decoder.optional CopyParams.ofJson? params))
  | "change_column", [table, name, column, params] => do
      pure (changeColumn (← Decoder.required Decoder.text table)
        (← Decoder.required Decoder.text name)
        (← Decoder.optional (Column.ofJson? true) column)
        (← Decoder.optional CopyParams.ofJson? params))
  | "drop_column", [table, name] => do
      pure (dropColumn (← Decoder.required Decoder.text table)
        (← Decoder.required Decoder.text name))
  | "rename_column", [table, old, new] => do
      pure (renameColumn (← Decoder.required Decoder.text table)
        (← Decoder.required Decoder.text old) (← Decoder.required Decoder.text new))
  | "sql", [query, values] => do
      pure (sql (← Decoder.required Decoder.text query)
        (← Decoder.orElse [] (Decoder.list BoundValue.ofJson?) values))
  | _, _ => none

/-- Reads an operation from a value whose containers nest at most `levels`
deep.  Before its name is known the whole value has to be held, so even what
is ignored in it must have a text or fit a double. -/
def ofJson? (levels : Nat) : Decoder Operation := fun value => do
  if !value.isHeldWithin levels then none
  let (name, rest) ← value.untag? "op"
  let record ← Record.of? (fields name) rest
  ofFields? name record.found

end Operation

end SchemaMigration
