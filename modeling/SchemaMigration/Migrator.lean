import SchemaMigration.Command
import SchemaMigration.Plan.Operation

/-!
# Calls to a migrator

A migrator compiles a sequence through migrations that are opened one after
another.  While one is open, calls on tables are declared and steps are
appended.  Asking for the outcome closes it.
-/

namespace SchemaMigration

structure Migrator where
  compilation : Compilation
  isOpen : Bool
deriving DecidableEq

inductive MigratorCall
  | migrate
  | table (name : String) (calls : List TableCall)
  | sql (query : String) (values : List BoundValue)
  | script (label : String)
  | asyncScript (label : String)
  | steps (applied : Option HistoryRecord)
  | rowTypes
  | history
deriving DecidableEq

/-- What a migrator answers.  Calls on a table answer one by one, each with the
name that later calls are declared for. -/
inductive MigratorReply
  | notOpen
  | answered (reply : Reply)
  | declared (answers : List (Reply × String))
  | history (create select : String)
deriving DecidableEq

namespace Migrator

def new (settings : Settings) : Migrator := ⟨.new settings, false⟩

/-- Declares calls on a table.  One that is refused leaves the name as it was. -/
def declareAll (compilation : Compilation) (table : String) :
    List TableCall → List (Reply × String) × Compilation
  | [] => ([], compilation)
  | call :: rest =>
      match compilation.declare table call with
      | .ok (next, name) =>
          let (answers, final) := declareAll next name rest
          ((.done, name) :: answers, final)
      | .error error =>
          let (answers, final) := declareAll compilation table rest
          ((.refused error, table) :: answers, final)

/-- Passes a command on to the compilation. -/
def pass (migrator : Migrator) (command : Command) (isOpen : Reply → Bool) :
    MigratorReply × Migrator :=
  let (reply, compilation) := command.perform migrator.compilation
  (.answered reply, ⟨compilation, isOpen reply⟩)

/-- Does what only an open migration can do. -/
def whenOpen (migrator : Migrator) (result : MigratorReply × Migrator) :
    MigratorReply × Migrator :=
  if migrator.isOpen then result else (.notOpen, migrator)

/-- The answer and the migrator after a call. -/
def perform (migrator : Migrator) : MigratorCall → MigratorReply × Migrator
  | .migrate => migrator.pass .start fun
      | .opened _ => true
      | _ => false
  | .table name calls =>
      let (answers, compilation) := declareAll migrator.compilation name calls
      migrator.whenOpen (.declared answers, ⟨compilation, true⟩)
  | .sql query values => migrator.whenOpen (migrator.pass (.sql query values) fun _ => true)
  | .script label => migrator.whenOpen (migrator.pass (.script label) fun _ => true)
  | .asyncScript label =>
      migrator.whenOpen (migrator.pass (.asyncScript label) fun _ => true)
  | .steps applied => migrator.pass (.steps applied) fun _ => false
  | .rowTypes => migrator.pass .rowTypes fun _ => false
  | .history =>
      let layout := migrator.compilation.settings.migrationTable
      (.history layout.createSql layout.selectLatestSql, { migrator with isOpen := false })

/-- The migrator after calls one after another. -/
def run (migrator : Migrator) (calls : List MigratorCall) : Migrator :=
  calls.foldl (fun migrator call => (migrator.perform call).2) migrator

end Migrator

end SchemaMigration
