import SchemaMigration.Json.Reader
import SchemaMigration.Json.Writer
import SchemaMigration.Plan.Operation

/-!
# Plans

A plan is a migration sequence as data: settings, and for each migration its
operations.  It is read from JSON and compiled from an empty schema.
-/

namespace SchemaMigration

open SchemaMigration.Json

structure DeclaredMigration where
  operations : List Operation := []
deriving DecidableEq

structure Plan where
  settings : Settings := {}
  migrations : List DeclaredMigration := []
deriving DecidableEq

namespace DeclaredMigration

def toJson (migration : DeclaredMigration) : Value :=
  .record [("operations", .array (migration.operations.map Operation.toJson))]

def fields : List String := ["operations"]

/-- Two of the levels of nesting are the migration's own. -/
def ofJson? (levels : Nat) : Decoder DeclaredMigration := fun value => do
  match (← Record.of? fields value).found with
  | [operations] =>
      pure { operations :=
        ← Decoder.orElse [] (Decoder.list (Operation.ofJson? (levels - 2))) operations }
  | _ => none

/-- Opens a migration and carries out its operations. -/
def apply (compilation : Compilation) (migration : DeclaredMigration) :
    Except MigrationError Compilation := do
  let (_, compilation) ← compilation.openMigration
  migration.operations.foldlM Operation.apply compilation

end DeclaredMigration

namespace Plan

/-- How deeply the containers of a text that is held may nest. -/
def nestingLimit : Nat := 127

def toJson (plan : Plan) : Value :=
  .record [("config", plan.settings.toJson),
    ("migrations", .array (plan.migrations.map DeclaredMigration.toJson))]

def fields : List String := ["config", "migrations"]

def ofJson? : Decoder Plan := fun value => do
  let absent : Plan := {}
  match (← Record.of? fields value).found with
  | [settings, migrations] =>
      pure {
        settings := ← Decoder.orElse absent.settings Settings.ofJson? settings
        migrations :=
          ← Decoder.orElse [] (Decoder.list (DeclaredMigration.ofJson? (nestingLimit - 2)))
            migrations }
  | _ => none

/-- The text of a plan. -/
def write (plan : Plan) : String := plan.toJson.write

/-- The plan of a text. -/
def parse? (text : String) : Option Plan := (Value.parse? text).bind ofJson?

/-- Compiles the migrations with `settings` in place of the plan's settings. -/
def compileWith (plan : Plan) (settings : Settings) : Except MigrationError Compilation :=
  plan.migrations.foldlM DeclaredMigration.apply (Compilation.new settings)

def compile (plan : Plan) : Except MigrationError Compilation := plan.compileWith plan.settings

end Plan

end SchemaMigration
