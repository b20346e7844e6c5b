import SchemaMigration.Compilation
import SchemaMigration.RowTypes

/-!
# Commands to a compilation

A compilation is a run of commands.  Each of them is answered or refused, and leaves
the compilation behind for the next.
-/

namespace SchemaMigration

/-- Compiles what is pending and gives the row types of the final schema. -/
def CompileM.rowTypes : CompileM String := do
  flush
  let compilation ← get
  pure (RowTypes.document compilation.registry)

def Compilation.rowTypes (compilation : Compilation) :
    Except MigrationError (String × Compilation) :=
  CompileM.rowTypes.attempt compilation

inductive Command
  | start
  | enqueue (table : String) (action : Action)
  | sql (query : String) (values : List BoundValue)
  | script (label : String)
  | asyncScript (label : String)
  | flush
  | steps (applied : Option HistoryRecord)
  | rowTypes
deriving DecidableEq

/-- What a command answers. -/
inductive Reply
  | done
  | opened (id : Int)
  | steps (steps : List Step)
  | document (text : String)
  | refused (error : MigrationError)
deriving DecidableEq

namespace Command

/-- What a command does to a compilation, and its answer. -/
def execute : Command → CompileM Reply
  | start => do
      let id ← CompileM.openMigration
      pure (.opened id)
  | enqueue table action => do
      CompileM.enqueue table action
      pure .done
  | sql query values => do
      CompileM.addStep (.sql query values)
      pure .done
  | script label => do
      CompileM.addStep (.script label)
      pure .done
  | asyncScript label => do
      CompileM.addStep (.asyncScript label)
      pure .done
  | flush => do
      CompileM.flush
      pure .done
  | steps applied => do
      let delta ← CompileM.steps applied
      pure (.steps delta)
  | rowTypes => do
      let document ← CompileM.rowTypes
      pure (.document document)

/-- The answer and the compilation after a command that is not refused. -/
def attempt (compilation : Compilation) (command : Command) :
    Except MigrationError (Reply × Compilation) :=
  command.execute.attempt compilation

/-- The answer and the compilation after any command. -/
def perform (compilation : Compilation) (command : Command) : Reply × Compilation :=
  match command.execute.perform compilation with
  | (.ok reply, next) => (reply, next)
  | (.error error, left) => (.refused error, left)

end Command

/-- The compilation after a run of commands. -/
def Compilation.run (compilation : Compilation) (commands : List Command) : Compilation :=
  commands.foldl (fun compilation command => (command.perform compilation).2) compilation

end SchemaMigration
