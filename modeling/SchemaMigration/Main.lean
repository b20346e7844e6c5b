import SchemaMigration.CommandLine.Run
import Std.Time.DateTime.Timestamp

/-!
# The program

Reads the arguments, the environment, the plan file and the clock, and writes
what the invocation yields.
-/

namespace SchemaMigration.CommandLine

/-- The cause of a failed attempt to read a file. -/
def fileError : IO.Error → FileError
  | .noFileOrDirectory _ _ _ => .notFound
  | .inappropriateType _ code _ => if code = 21 then .isDirectory else .notDirectory
  | error => .other (toString error)

/-- The text of a file, or why it could not be had. -/
def readPlanText (path : String) : IO (Except FileError String) := do
  try
    let bytes ← IO.FS.readBinFile path
    match String.fromUTF8? bytes with
    | some text => pure (.ok text)
    | none => pure (.error .notText)
  catch error => pure (.error (fileError error))

/-- The seconds from the start of 1970 to now. -/
def clockSeconds : IO Int := do
  let now ← Std.Time.Timestamp.now
  pure now.toSecondsSinceUnixEpoch.val

/-- Writes an outcome and gives the exit code. -/
def report (outcome : Outcome) : IO UInt32 := do
  for event in outcome.log do
    let level := String.ofList (event.level.name.toList.leftpad 5 ' ')
    IO.eprintln (level ++ " " ++ event.shown)
  IO.print outcome.printed
  match outcome.failure with
  | none => pure 0
  | some error =>
      IO.eprintln ("Error: " ++ error.message)
      pure 1

end SchemaMigration.CommandLine

open SchemaMigration.CommandLine in
def main (arguments : List String) : IO UInt32 := do
  let version ← IO.getEnv "SQLITE_VERSION"
  match invocation version arguments with
  | .error .version => do
      IO.print versionLine
      pure 0
  | .error .help => do
      IO.print helpText
      pure 0
  | .error .usage => do
      IO.eprint helpText
      pure 2
  | .ok invocation => do
      let content ← match invocation.task.planPath? with
        | some path => readPlanText path
        | none => pure (.ok "")
      let seconds ← clockSeconds
      report (invocation.run (SchemaMigration.Json.Numeral.ofInt seconds) content)
