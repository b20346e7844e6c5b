import SchemaMigration.Json.Record

/-!
# The history table

Applied migrations are recorded in a table of two possible layouts.  The query
for the latest record names its columns alike in both.
-/

namespace SchemaMigration

inductive HistoryLayout
  | current
  | legacy
deriving DecidableEq

namespace HistoryLayout

open SchemaMigration.Json

def name : HistoryLayout → String
  | current => "current"
  | legacy => "legacy"

def ofName? (text : String) : Option HistoryLayout :=
  [current, legacy].find? (·.name = text)

def toJson (layout : HistoryLayout) : Value := .string layout.name

def ofJson? : Decoder HistoryLayout := Decoder.enumeration false ofName?

def createSql : HistoryLayout → String
  | current =>
      "CREATE TABLE IF NOT EXISTS \"migrations\" (\"id\" INTEGER NOT NULL PRIMARY KEY, " ++
        "\"version\" TEXT NOT NULL, \"timestamp\" INTEGER NOT NULL);"
  | legacy =>
      "CREATE TABLE IF NOT EXISTS \"migrations\" (\"revision\" INTEGER NOT NULL PRIMARY KEY, " ++
        "\"app_version\" TEXT NOT NULL, \"date_migrated\" INTEGER NOT NULL);"

/-- The query for the latest record. -/
def selectLatestSql : HistoryLayout → String
  | current => "SELECT MAX(\"id\") as \"id\", \"version\", \"timestamp\" FROM \"migrations\";"
  | legacy =>
      "SELECT MAX(\"revision\") as \"id\", \"app_version\" AS \"version\", " ++
        "\"date_migrated\" AS \"timestamp\" FROM \"migrations\";"

/-- The statement that records a migration; it binds the identifier, the
version and the time. -/
def insertSql : HistoryLayout → String
  | current =>
      "INSERT INTO \"migrations\" (\"id\", \"version\", \"timestamp\") VALUES (?, ?, ?);"
  | legacy =>
      "INSERT INTO \"migrations\" (\"revision\", \"app_version\", \"date_migrated\") " ++
        "VALUES (?, ?, ?);"

end HistoryLayout

end SchemaMigration
