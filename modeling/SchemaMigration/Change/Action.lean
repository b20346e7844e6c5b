import SchemaMigration.Schema.Column

/-!
# Structural actions

A structural action is one declared change to one table.
-/

namespace SchemaMigration

inductive Action
  | createTable (columns : List Column)
  | dropTable
  | renameTable (new : String)
  | addColumn (column : Column) (params : Option CopyParams)
  | changeColumn (name : String) (definition : Option Column) (params : Option CopyParams)
  | dropColumn (name : String)
  | renameColumn (old new : String)
deriving DecidableEq

namespace Action

/-- Whether the action begins or ends the life of its table. -/
def isTerminal : Action → Bool
  | createTable _ | dropTable => true
  | _ => false

/-- Whether the action renames its table. -/
def isRenameTable : Action → Bool
  | renameTable _ => true
  | _ => false

/-- The table names that the action reads or claims when it is declared for
`table`. -/
def tableNames (table : String) : Action → List String
  | renameTable new => [table, new]
  | _ => [table]

def description (table : String) : Action → String
  | createTable _ => s!"Create table '{table}'"
  | dropTable => s!"Drop table '{table}'"
  | renameTable new => s!"Rename table '{table}' to '{new}'"
  | addColumn column _ => s!"Add column '{column.name}' to table '{table}'"
  | changeColumn name _ _ => s!"Change column '{name}' in table '{table}'"
  | dropColumn name => s!"Drop column '{name}' from table '{table}'"
  | renameColumn old new => s!"Rename column '{old}' to '{new}' in table '{table}'"

end Action

end SchemaMigration
