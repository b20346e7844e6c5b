import SchemaMigration.Change.Queue
import SchemaMigration.Settings
import SchemaMigration.History.Record
import SchemaMigration.Number.Word
import SchemaMigration.Planning.Planner
import SchemaMigration.Migration

/-!
# Compilation of a migration sequence

A compilation holds the registry, the pending actions and the migrations
compiled so far.  Pending actions are compiled all together at the next flush,
which precedes each new migration and each step that is not a structural action.
A flush plans on a copy of the registry and writes back only what is planned to
the end.
-/

namespace SchemaMigration

structure Compilation where
  settings : Settings
  registry : Registry
  queue : Queue
  migrations : List Migration
deriving DecidableEq

namespace Compilation

def new (settings : Settings) : Compilation := ⟨settings, .empty, .empty, []⟩

def capabilities (compilation : Compilation) : Capabilities :=
  Capabilities.resolve compilation.settings.dialect compilation.settings.dialectVersion

def planner (compilation : Compilation) : Planner where
  dialect := compilation.settings.dialect
  capabilities := compilation.capabilities
  replaceExisting := compilation.settings.replaceExistingTables

/-- The identifier of the migration that receives steps. -/
def currentId? (compilation : Compilation) : Option Int :=
  compilation.migrations.getLast?.map (·.id)

def nextId (compilation : Compilation) : Int :=
  Number.word (compilation.migrations.length + compilation.settings.firstMigrationId)

/-- The identifier of the last declared migration. -/
def targetId (compilation : Compilation) : Int := Number.word (compilation.nextId - 1)

/-- Plans batches one after another and collects their statements. -/
def planBatches (planner : Planner) (planned : Registry × List Statement)
    (batches : List Batch) : Except MigrationError (Registry × List Statement) :=
  batches.foldlM (fun (registry, statements) batch => do
    let (registry, planned) ← planner.plan registry batch.table batch.actions
    pure (registry, statements ++ planned.statements)) planned

/-- The statements in front of a delta. -/
def prelude : List Step :=
  [.plain "PRAGMA foreign_keys = OFF;", .plain "BEGIN TRANSACTION;"]

/-- The statements behind a delta. -/
def epilogue : List Step :=
  [.plain "COMMIT TRANSACTION;", .plain "PRAGMA foreign_keys = ON;"]

/-- The identifier of the migration a database is at.  Without a record it is
in front of the first. -/
def latestId (settings : Settings) (applied : Option HistoryRecord) : Int :=
  (applied.bind (·.id)).getD (Number.word (settings.firstMigrationId - 1))

/-- The steps of the migrations after `latest`. -/
def stepsAfter (compilation : Compilation) (latest : Int) : List Step :=
  (compilation.migrations.filter (latest < ·.id)).flatMap (·.steps)

/-- The steps that bring a database at `latest` to the last declared migration:
none when it is there already or beyond. -/
def delta (compilation : Compilation) (latest : Int) : List Step :=
  if compilation.migrations.isEmpty || compilation.targetId ≤ latest then []
  else if compilation.settings.ignoreTransactionStatements then compilation.stepsAfter latest
  else prelude ++ compilation.stepsAfter latest ++ epilogue

end Compilation

/-- An operation on a compilation.  It answers or fails, and either way it leaves
a compilation behind. -/
abbrev CompileM (α : Type) := ExceptT MigrationError (StateM Compilation) α

namespace CompileM

/-- What an operation answers or fails with, and what it leaves behind. -/
def perform {α : Type} (operation : CompileM α) (compilation : Compilation) :
    Except MigrationError α × Compilation :=
  operation.run.run compilation

/-- The answer of an operation and what it leaves behind, unless it fails. -/
def attempt {α : Type} (operation : CompileM α) (compilation : Compilation) :
    Except MigrationError (α × Compilation) :=
  match operation.perform compilation with
  | (.ok answer, next) => .ok (answer, next)
  | (.error error, _) => .error error

/-- Appends steps to the current migration. -/
def appendSteps (steps : List Step) : CompileM Unit := do
  let compilation ← get
  match compilation.migrations.getLast? with
  | none => throw .noActiveMigration
  | some current =>
      set { compilation with
        migrations := compilation.migrations.dropLast ++
          [{ current with steps := current.steps ++ steps }] }

/-- Compiles every pending action into the current migration. -/
def flush : CompileM Unit := do
  let compilation ← get
  if compilation.queue.isEmpty then pure ()
  else
    let (registry, statements) ← ofExcept
      (Compilation.planBatches compilation.planner (compilation.registry, [])
        compilation.queue.batches)
    appendSteps (statements.map Step.schema)
    modify fun compilation => { compilation with registry, queue := .empty }

/-- Closes the current migration and opens the next one. -/
def openMigration : CompileM Int := do
  flush
  let compilation ← get
  let id := compilation.nextId
  let opened : Migration :=
    ⟨id, [.record compilation.settings.migrationTable id compilation.settings.appVersion]⟩
  set { compilation with migrations := compilation.migrations ++ [opened] }
  pure id

/-- Declares a structural action for a table. -/
def enqueue (table : String) (action : Action) : CompileM Unit := do
  let compilation ← get
  if compilation.migrations.isEmpty then throw .noActiveMigration
  else set { compilation with queue := compilation.queue.push table action }

/-- Appends a step behind everything declared before it. -/
def addStep (step : Step) : CompileM Unit := do
  let compilation ← get
  if compilation.migrations.isEmpty then throw .noActiveMigration
  else
    flush
    appendSteps [step]

/-- Compiles what is pending and gives the steps for a database whose history
has the given latest record. -/
def steps (applied : Option HistoryRecord) : CompileM (List Step) := do
  flush
  let compilation ← get
  pure (compilation.delta (Compilation.latestId compilation.settings applied))

end CompileM

namespace Compilation

/-! The operations for callers that give up the compilation where one fails. -/

def appendSteps (compilation : Compilation) (steps : List Step) :
    Except MigrationError Compilation :=
  ((CompileM.appendSteps steps).attempt compilation).map (·.2)

def flush (compilation : Compilation) : Except MigrationError Compilation :=
  (CompileM.flush.attempt compilation).map (·.2)

def openMigration (compilation : Compilation) : Except MigrationError (Int × Compilation) :=
  CompileM.openMigration.attempt compilation

def enqueue (compilation : Compilation) (table : String) (action : Action) :
    Except MigrationError Compilation :=
  ((CompileM.enqueue table action).attempt compilation).map (·.2)

def addStep (compilation : Compilation) (step : Step) : Except MigrationError Compilation :=
  ((CompileM.addStep step).attempt compilation).map (·.2)

def steps (compilation : Compilation) (applied : Option HistoryRecord) :
    Except MigrationError (List Step × Compilation) :=
  (CompileM.steps applied).attempt compilation

end Compilation

end SchemaMigration
