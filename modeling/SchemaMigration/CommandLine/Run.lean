import SchemaMigration.Command
import SchemaMigration.CommandLine.Arguments
import SchemaMigration.Plan.File
import SchemaMigration.Trace

/-!
# Running an invocation

What an invocation prints, logs and fails with, given the content of its plan
file and the numeral to print for the time of compilation.
-/

namespace SchemaMigration.CommandLine

open SchemaMigration.Json

structure Outcome where
  printed : String
  log : List Event
  failure : Option CompileError

namespace Outcome

def success (printed : String) (log : List Event) : Outcome := ⟨printed, log, none⟩

def failed (error : CompileError) (log : List Event) : Outcome := ⟨"", log, some error⟩

end Outcome

/-- The values bound to a step. -/
def boundValues (clock : Numeral) (step : Step) : List Value :=
  step.values BoundValue.toJson (.scalar (.number clock))

/-- The line of a step: its text, and behind a comment mark the values bound to
it. -/
def stepLine (clock : Numeral) (step : Step) : String :=
  match step.query?, boundValues clock step with
  | none, _ => "-- script"
  | some query, [] => query
  | some query, values => query ++ " -- " ++ (Value.array values).write

/-- The record of a step that has a text. -/
def stepRecord? (clock : Numeral) (step : Step) : Option Value :=
  step.query?.map fun query =>
    .record [("query", .string query), ("values", .array (boundValues clock step))]

def printSteps (clock : Numeral) (format : Format) (steps : List Step) : String :=
  match format with
  | .sql => String.join (steps.map fun step => stepLine clock step ++ "\n")
  | .json => (Value.array (steps.filterMap (stepRecord? clock))).writeIndented ++ "\n"

/-- The plan's settings with those that the options replace. -/
def StepOptions.settings (options : StepOptions) (settings : Settings) : Settings :=
  { settings with
    dialectVersion := options.dialectVersion.getD settings.dialectVersion
    appVersion := options.appVersion.getD settings.appVersion }

def runSteps (clock : Numeral) (content : Except FileError String)
    (options : StepOptions) : Outcome :=
  match Plan.ofFile options.plan content with
  | .error error => .failed error []
  | .ok plan =>
      let settings := options.settings plan.settings
      let compiling := Trace.compile plan settings
      match plan.compileWith settings with
      | .error error => .failed (.migration error) compiling
      | .ok compilation =>
          let applied := options.lastApplied.map fun id => ({ id := some id } : HistoryRecord)
          let log := compiling ++ Trace.steps compilation applied
          match compilation.steps applied with
          | .error error => .failed (.migration error) log
          | .ok (steps, _) => .success (printSteps clock options.format steps) log

def runRowTypes (content : Except FileError String) (path : String) : Outcome :=
  match Plan.ofFile path content with
  | .error error => .failed error []
  | .ok plan =>
      let compiling := Trace.compile plan plan.settings
      match plan.compile with
      | .error error => .failed (.migration error) compiling
      | .ok compilation =>
          let log := compiling ++ Trace.flush compilation
          match compilation.rowTypes with
          | .error error => .failed (.migration error) log
          | .ok (document, _) => .success document log

def runHistory (legacy : Bool) : Outcome :=
  let layout := if legacy then HistoryLayout.legacy else .current
  let name := if legacy then "Legacy" else "Current"
  .success (layout.createSql ++ "\n" ++ layout.selectLatestSql ++ "\n")
    [Trace.info s!"Migrations table layout: {name}"]

/-- The plan file that a task reads. -/
def Task.planPath? : Task → Option String
  | .steps options => some options.plan
  | .rowTypes plan => some plan
  | .history _ => none

/-- The outcome of a task.  Without verbosity the log leaves out what serves
only debugging. -/
def Invocation.run (invocation : Invocation) (clock : Numeral)
    (content : Except FileError String) : Outcome :=
  let outcome := match invocation.task with
    | .steps options => runSteps clock content options
    | .rowTypes plan => runRowTypes content plan
    | .history legacy => runHistory legacy
  if invocation.verbose then outcome
  else { outcome with log := outcome.log.filter (·.level ≠ .debug) }

/-- The answer to a request for the version. -/
def versionLine : String := "oxide-migrate-compiler 0.1.0\n"

/-- The answer to a request for help. -/
def helpText : String :=
  "Compile SQLite schema migrations ahead of time\n\n" ++
  "Usage: oxide-migrate-compiler [OPTIONS] <COMMAND>\n\n" ++
  "Commands:\n" ++
  "  steps  Print the steps that bring a database up to date\n" ++
  "  types  Print Rust row structs for the final schema\n" ++
  "  init   Print the migrations history table DDL and last-applied query\n" ++
  "  help   Print this message or the help of the given subcommand(s)\n\n" ++
  "Options:\n" ++
  "  -v, --verbose  Enable verbose output\n" ++
  "  -h, --help     Print help\n" ++
  "  -V, --version  Print version\n"

end SchemaMigration.CommandLine
