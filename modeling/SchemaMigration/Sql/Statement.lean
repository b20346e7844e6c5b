import SchemaMigration.Schema.Table

/-!
# Schema statements

The statements that a compilation emits to change the schema, as data and as
text.  A column is always defined from its full definition, so that the text of
a statement says nothing that the data does not.
-/

namespace SchemaMigration

/-- What a copied column reads from the source table. -/
inductive CopyExpression
  | column (name : String)
  | literal (value : Literal)
  | coalesce (name : String) (fallback : Literal)
deriving DecidableEq

inductive Statement
  | createTable (name : String) (columns : List Column)
  | dropTable (name : String)
  | renameTable (old new : String)
  | addColumn (table : String) (column : Column)
  | dropColumn (table column : String)
  | renameColumn (table old new : String)
  | copyRows (target : String) (copies : List (String × CopyExpression)) (source : String)
deriving DecidableEq

namespace Column

/-- The words after the column's name.  Identity columns are defined by their
type alone, and foreign columns leave everything but the type to clauses. -/
def attributes (column : Column) : List String :=
  match column.type with
  | .identity => ["INTEGER PRIMARY KEY AUTOINCREMENT"]
  | .foreign => [column.type.sql]
  | _ =>
      [column.type.sql] ++
        (if column.autoIncrement then ["AUTOINCREMENT"] else []) ++
        (if column.notNull then ["NOT NULL"] else []) ++
        (column.default.map fun value => "DEFAULT " ++ value.sql).toList

/-- The column as a table definition lists it. -/
def definition (column : Column) : String :=
  String.intercalate " " (Text.identifier column.name :: column.attributes)

/-- The reference that follows a foreign column's name in a clause. -/
def referenceTo (table : String) : String :=
  "REFERENCES " ++ Text.identifier table ++ "(\"id\")"

/-- The clause of a foreign column in a table definition. -/
def foreignKey? (column : Column) : Option String :=
  column.target?.map fun table =>
    "FOREIGN KEY (" ++ Text.identifier column.name ++ ") " ++ referenceTo table

/-- The column as an added one: no clause can follow, so a foreign column
carries its reference with it. -/
def addedDefinition (column : Column) : String :=
  match column.target? with
  | none => column.definition
  | some table => column.definition ++ " " ++ referenceTo table

end Column

namespace Statement

/-- Names between commas. -/
def nameList (names : List String) : String :=
  String.intercalate ", " (names.map Text.identifier)

/-- The columns of the primary key clause; an identity column is a key of its
own. -/
def keyColumns (columns : List Column) : List String :=
  (columns.filter fun column => column.primaryKey && !column.isIdentity).map (·.name)

/-- The columns of the uniqueness clause. -/
def uniqueColumns (columns : List Column) : List String :=
  (columns.filter (·.unique)).map (·.name)

/-- A clause over names, left out when there are none. -/
def clause (keyword : String) (names : List String) : List String :=
  if names.isEmpty then [] else [keyword ++ "(" ++ nameList names ++ ")"]

/-- The parts of a table definition: the columns, then the clauses. -/
def parts (columns : List Column) : List String :=
  columns.map Column.definition ++
    clause "PRIMARY KEY" (keyColumns columns) ++
    clause "UNIQUE" (uniqueColumns columns) ++
    columns.filterMap Column.foreignKey?

end Statement

namespace CopyExpression

def sql : CopyExpression → String
  | column name => Text.identifier name
  | literal value => value.sql
  | coalesce name fallback =>
      "COALESCE(" ++ Text.identifier name ++ ", " ++ fallback.sql ++ ")"

end CopyExpression

namespace Statement

/-- The text of a statement. -/
def sql : Statement → String
  | createTable name columns =>
      "CREATE TABLE " ++ Text.identifier name ++ " (" ++
        String.intercalate ", " (parts columns) ++ ");"
  | dropTable name => "DROP TABLE " ++ Text.identifier name ++ ";"
  | renameTable old new =>
      "ALTER TABLE " ++ Text.identifier old ++ " RENAME TO " ++ Text.identifier new ++ ";"
  | addColumn table column =>
      "ALTER TABLE " ++ Text.identifier table ++ " ADD COLUMN " ++ column.addedDefinition ++ ";"
  | dropColumn table column =>
      "ALTER TABLE " ++ Text.identifier table ++ " DROP COLUMN " ++
        Text.identifier column ++ ";"
  | renameColumn table old new =>
      "ALTER TABLE " ++ Text.identifier table ++ " RENAME COLUMN " ++ Text.identifier old ++
        " TO " ++ Text.identifier new ++ ";"
  | copyRows target copies source =>
      "INSERT INTO " ++ Text.identifier target ++ " (" ++ nameList (copies.map (·.1)) ++
        ") SELECT " ++ String.intercalate ", " (copies.map (·.2.sql)) ++
        " FROM " ++ Text.identifier source ++ ";"

end Statement

end SchemaMigration
