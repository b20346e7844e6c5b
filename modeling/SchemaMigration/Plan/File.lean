import SchemaMigration.Plan.Basic

/-!
# Plan files

What can go wrong between a path and a plan, and what a whole compilation can
fail with.
-/

namespace SchemaMigration

/-- Why the text of a file could not be had. -/
inductive FileError
  | notFound
  | isDirectory
  | notDirectory
  | notText
  | other (message : String)
deriving DecidableEq

namespace FileError

def message : FileError → String
  | notFound => "No such file or directory (os error 2)"
  | isDirectory => "Is a directory (os error 21)"
  | notDirectory => "Not a directory (os error 20)"
  | notText => "stream did not contain valid UTF-8"
  | other message => message

/-- The name of the class of the error. -/
def name : FileError → String
  | notFound => "NotFound"
  | isDirectory => "IsADirectory"
  | notDirectory => "NotADirectory"
  | notText => "InvalidData"
  | other _ => "Other"

end FileError

inductive CompileError
  | file (error : FileError)
  | unreadable (path : String)
  | migration (error : MigrationError)
deriving DecidableEq

namespace CompileError

def message : CompileError → String
  | file error => "IO error: " ++ error.message
  | unreadable path => s!"Failed to parse plan file '{path}':"
  | migration error => error.message

end CompileError

/-- The plan of a file, given what was read of it. -/
def Plan.ofFile (path : String) (content : Except FileError String) :
    Except CompileError Plan :=
  match content with
  | .error error => .error (.file error)
  | .ok text =>
      match Plan.parse? text with
      | some plan => .ok plan
      | none => .error (.unreadable path)

end SchemaMigration
