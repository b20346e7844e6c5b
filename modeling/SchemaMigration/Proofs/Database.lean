import SchemaMigration.Proofs.Runs
import SchemaMigration.Proofs.TableSemantics

/-!
# What statements do to a database

A database is a catalog whose columns are a name and the words of its
definition.  Keys, uniqueness and references, which stand in clauses of their
own, are left out of account.  A statement changes the database or fails.
-/

namespace SchemaMigration

/-- A column of a database: its name and the words that define it. -/
structure StoredColumn where
  name : String
  attributes : List String
deriving DecidableEq

instance : Named StoredColumn where
  name := StoredColumn.name
  withName name column := { column with name }

namespace StoredColumn

/-- The column as a table definition lists it. -/
def definition (column : StoredColumn) : String :=
  String.intercalate " " (Text.identifier column.name :: column.attributes)

def ofColumn (column : Column) : StoredColumn := ⟨column.name, column.attributes⟩

theorem hom_ofColumn : Columns.Hom ofColumn := ⟨fun _ => rfl, fun _ _ => rfl⟩

/-- References are no part of what is stored of a column. -/
theorem ofColumn_retarget (old new : String) (column : Column) :
    ofColumn (column.retarget old new) = ofColumn column := by
  rw [Column.retarget]
  split <;> rfl

end StoredColumn

abbrev Database := Catalog StoredColumn

namespace Statement

/-- What a statement does to a database.  A table is created or renamed under a
free name; every other statement needs its table.  Copying rows leaves the
tables as they are. -/
def exec : Statement → Database → Option Database
  | createTable name columns, database =>
      database.create name (columns.map StoredColumn.ofColumn)
  | dropTable name, database => database.drop name
  | renameTable old new, database => database.move old new
  | addColumn table column, database =>
      database.alter table (Columns.add (StoredColumn.ofColumn column))
  | dropColumn table column, database => database.alter table (Columns.drop column)
  | renameColumn table old new, database => database.alter table (Columns.rename old new)
  | copyRows target _ source, database =>
      if (database target).isSome && (database source).isSome then some database else none

def execAll (statements : List Statement) (database : Database) : Option Database :=
  statements.foldlM (fun database statement => statement.exec database) database

end Statement

namespace Step

/-- What a step does to a database.  Queries that were given as text and scripts
are taken to leave the tables as they are. -/
def exec : Step → Database → Option Database
  | schema statement, database => statement.exec database
  | sql _ _, database | record _ _ _, database => some database
  | script _, database | asyncScript _, database => some database

def execAll (steps : List Step) (database : Database) : Option Database :=
  steps.foldlM (fun database step => step.exec database) database

theorem execAll_eq (steps : List Step) (database : Database) :
    execAll steps database = Statement.execAll (steps.filterMap statement?) database :=
  foldlM_statements (fun step _ => by cases step <;> rfl) steps database

end Step

/-- The definitions of columns give a semantics of statements. -/
def StoredColumn.semantics : ColumnSemantics StoredColumn where
  view := ofColumn
  follow _ _ := id
  exec := Statement.exec
  follow_view old new column := (ofColumn_retarget old new column).symm
  exec_createTable _ _ _ := rfl
  exec_dropTable _ _ := rfl
  exec_renameTable old new database := by
    rw [funext Catalog.mapColumns_id, Option.map_id']
    rfl
  exec_copyRows target copies source database htarget hsource := by
    rw [Statement.exec, htarget, hsource]
    rfl
  hom := hom_ofColumn
  exec_addColumn _ _ _ := rfl
  exec_dropColumn _ _ _ := rfl
  exec_renameColumn _ _ _ _ := rfl

/-- The schema as a database stores it. -/
def Schema.stored (schema : Schema) : Database := schema.mapColumns StoredColumn.ofColumn

end SchemaMigration
