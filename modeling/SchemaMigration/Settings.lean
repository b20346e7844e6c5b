import SchemaMigration.History.Layout

/-!
# Settings of a compilation
-/

namespace SchemaMigration

open SchemaMigration.Json

/-- The settings, each with its default. -/
structure Settings where
  appVersion : String := "-"
  dialect : String := "sqlite"
  dialectVersion : String := "3.0.0"
  firstMigrationId : Int := 1
  ignoreTransactionStatements : Bool := false
  migrationTable : HistoryLayout := .current
  replaceExistingTables : Bool := false
deriving DecidableEq

namespace Settings

def fields : List String :=
  ["app_version", "dialect", "dialect_version", "first_migration_id",
   "ignore_transaction_statements", "migration_table", "replace_existing_tables"]

def toJson (settings : Settings) : Value :=
  .record [("app_version", .string settings.appVersion), ("dialect", .string settings.dialect),
    ("dialect_version", .string settings.dialectVersion),
    ("first_migration_id", .int settings.firstMigrationId),
    ("ignore_transaction_statements", .bool settings.ignoreTransactionStatements),
    ("migration_table", settings.migrationTable.toJson),
    ("replace_existing_tables", .bool settings.replaceExistingTables)]

/-- A setting that is not given keeps its default. -/
def ofJson? : Decoder Settings := fun value => do
  let absent : Settings := {}
  match (← Record.of? fields value).found with
  | [appVersion, dialect, dialectVersion, firstMigrationId, ignoreTransactionStatements,
     migrationTable, replaceExistingTables] =>
      pure {
        appVersion := ← Decoder.orElse absent.appVersion Decoder.text appVersion
        dialect := ← Decoder.orElse absent.dialect Decoder.text dialect
        dialectVersion := ← Decoder.orElse absent.dialectVersion Decoder.text dialectVersion
        firstMigrationId :=
          ← Decoder.orElse absent.firstMigrationId Decoder.word firstMigrationId
        ignoreTransactionStatements :=
          ← Decoder.orElse absent.ignoreTransactionStatements Decoder.flag
            ignoreTransactionStatements
        migrationTable :=
          ← Decoder.orElse absent.migrationTable HistoryLayout.ofJson? migrationTable
        replaceExistingTables :=
          ← Decoder.orElse absent.replaceExistingTables Decoder.flag replaceExistingTables }
  | _ => none

end Settings

end SchemaMigration
