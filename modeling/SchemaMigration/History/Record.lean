import SchemaMigration.History.Calendar
import SchemaMigration.Json.Record

/-!
# Applied migrations

The latest record of the history table.  Its identifier is absent when the
table holds no record.
-/

namespace SchemaMigration

open SchemaMigration.Json

structure HistoryRecord where
  id : Option Int := none
  version : Option String := none
  timestamp : Option Int := none
deriving DecidableEq

namespace HistoryRecord

/-- When the migration was applied. -/
def appliedAt? (applied : HistoryRecord) : Option Moment :=
  applied.timestamp.bind Moment.ofSeconds?

/-- A line for people: a dash stands for what is absent. -/
def display (applied : HistoryRecord) : String :=
  "#" ++ ((applied.id.map toString).getD "-") ++ " (version " ++
    applied.version.getD "-" ++
    ((applied.appliedAt?.map fun moment =>
      ", applied " ++ moment.display " " ++ " UTC").getD "") ++ ")"

def fields : List String := ["id", "version", "timestamp"]

def toJson (applied : HistoryRecord) : Value :=
  .record [("id", (applied.id.map Value.int).getD .null),
    ("version", (applied.version.map Value.string).getD .null),
    ("timestamp", (applied.timestamp.map Value.int).getD .null)]

/-- In an array the identifier must be given, as null if need be. -/
def ofJson? : Decoder HistoryRecord := fun value => do
  let record ← Record.of? fields value
  match record.found with
  | [id, version, timestamp] =>
      if record.positional && id.isNone then none
      else pure {
        id := ← Decoder.optional Decoder.word id
        version := ← Decoder.optional Decoder.text version
        timestamp := ← Decoder.optional Decoder.word timestamp }
  | _ => none

end HistoryRecord

end SchemaMigration
