import SchemaMigration.Proofs.Runs
import SchemaMigration.Proofs.SqlText
import SchemaMigration.Proofs.TableSemantics

/-!
# What texts do to a database

A database is handed the texts of the steps and nothing else.  It reads a text as one
statement and executes what it has read; a text that is no statement fails.  Of a column
it keeps the name and the tokens of the definition.  Keys, uniqueness and references,
which stand in clauses of their own, are left out of account.
-/

namespace SchemaMigration

namespace Sql

instance : Named Definition where
  name := Definition.name
  withName name definition := { definition with name }

/-- What a statement that has been read does to a database.  A table is created or renamed
under a free name; every other statement needs its table.  Copying rows leaves the tables
as they are. -/
def Outline.exec : Outline → Catalog Definition → Option (Catalog Definition)
  | createTable name columns _ _ _, database => database.create name columns
  | dropTable name, database => database.drop name
  | renameTable old new, database => database.move old new
  | addColumn table definition _, database => database.alter table (Columns.add definition)
  | dropColumn table column, database => database.alter table (Columns.drop column)
  | renameColumn table old new, database => database.alter table (Columns.rename old new)
  | copyRows target _ _ source, database =>
      if (database target).isSome && (database source).isSome then some database else none

/-- What a text does to a database. -/
def execText (text : String) (database : Catalog Definition) : Option (Catalog Definition) := do
  let outline ← read? text
  outline.exec database

end Sql

/-! ## Statements as they are read -/

theorem Column.hom_outline : Columns.Hom Column.outline := ⟨fun _ => rfl, fun _ _ => rfl⟩

/-- A reference is no part of the definition of a column. -/
theorem Column.outline_retarget (old new : String) (column : Column) :
    (column.retarget old new).outline = column.outline := by
  rw [retarget]
  split <;> rfl

theorem Statement.execText_sql (statement : Statement) (database : Catalog Sql.Definition) :
    Sql.execText statement.sql database = statement.outline.exec database := by
  rw [Sql.execText, statement.read?_sql]
  rfl

/-- The texts of statements give a semantics of these. -/
def Sql.semantics : ColumnSemantics Definition where
  view := Column.outline
  follow _ _ := id
  exec statement := execText statement.sql
  follow_view old new column := (column.outline_retarget old new).symm
  exec_createTable _ _ _ := Statement.execText_sql _ _
  exec_dropTable _ _ := Statement.execText_sql _ _
  exec_renameTable old new database := by
    rw [funext Catalog.mapColumns_id, Option.map_id']
    exact Statement.execText_sql _ _
  exec_copyRows target copies source database htarget hsource := by
    rw [Statement.execText_sql, Statement.outline, Outline.exec, htarget, hsource]
    rfl
  hom := Column.hom_outline
  exec_addColumn _ _ _ := Statement.execText_sql _ _
  exec_dropColumn _ _ _ := Statement.execText_sql _ _
  exec_renameColumn _ _ _ _ := Statement.execText_sql _ _

/-! ## Steps -/

namespace Step

/-- What the text of a step does to a database.  Queries that were given as text, records
and scripts are taken to leave the tables as they are. -/
def execText (step : Step) (database : Catalog Sql.Definition) :
    Option (Catalog Sql.Definition) :=
  match step with
  | schema _ => step.query?.bind fun text => Sql.execText text database
  | sql _ _ | record _ _ _ | script _ | asyncScript _ => some database

def execTexts (steps : List Step) (database : Catalog Sql.Definition) :
    Option (Catalog Sql.Definition) :=
  steps.foldlM (fun database step => step.execText database) database

theorem execTexts_eq (steps : List Step) (database : Catalog Sql.Definition) :
    execTexts steps database = Sql.semantics.execAll (steps.filterMap statement?) database :=
  foldlM_statements (fun step _ => by cases step <;> rfl) steps database

end Step

end SchemaMigration
