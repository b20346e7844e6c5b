/-!
# Errors of a compilation

A declared change that contradicts the tracked schema, or that comes before any
migration was opened, is refused with the cause.
-/

namespace SchemaMigration

/-- Why a change was refused. -/
inductive MigrationError
  | tableExists (table : String)
  | tableNotFound (table : String)
  | columnExists (table column : String)
  | columnNotFound (table column : String)
  | noActiveMigration
  | unsupported (dialect operation table : String)
deriving DecidableEq

/-- The classes of errors. -/
inductive ErrorKind
  | schemaConflict
  | sequencing
  | unsupportedOperation
  | plan
deriving DecidableEq

namespace ErrorKind

def name : ErrorKind → String
  | schemaConflict => "SchemaConflict"
  | sequencing => "Sequencing"
  | unsupportedOperation => "UnsupportedOperation"
  | plan => "Plan"

end ErrorKind

namespace MigrationError

def kind : MigrationError → ErrorKind
  | tableExists _ | tableNotFound _ | columnExists _ _ | columnNotFound _ _ => .schemaConflict
  | noActiveMigration => .sequencing
  | unsupported _ _ _ => .unsupportedOperation

def message : MigrationError → String
  | tableExists table => s!"Table '{table}' already exists"
  | tableNotFound table => s!"Table '{table}' does not exist"
  | columnExists table column => s!"Column '{column}' already exists in table '{table}'"
  | columnNotFound table column => s!"Column '{column}' does not exist in table '{table}'"
  | noActiveMigration => "No active migration. Call `migrate()` first"
  | unsupported dialect operation table =>
      s!"Dialect '{dialect}' does not support {operation} for table '{table}'"

end MigrationError

end SchemaMigration
