import SchemaMigration.Json.Record

/-!
# Command-line arguments

Arguments are read from left to right, and the first that does not fit decides
that there is no invocation; a request for help or for the version ends the
reading at once.  The value of an option is attached to it or follows as the
next argument, which then may not begin with a dash.
-/

namespace SchemaMigration.CommandLine

inductive Format
  | sql
  | json
deriving DecidableEq

namespace Format

def ofName? : String → Option Format
  | "sql" => some sql
  | "json" => some json
  | _ => none

end Format

/-- What to compile into steps, and how to print them. -/
structure StepOptions where
  plan : String
  lastApplied : Option Int
  format : Format
  dialectVersion : Option String
  appVersion : Option String
deriving DecidableEq

inductive Task
  | steps (options : StepOptions)
  | rowTypes (plan : String)
  | history (legacy : Bool)
deriving DecidableEq

structure Invocation where
  verbose : Bool
  task : Task
deriving DecidableEq

/-- Why there is no invocation. -/
inductive Stop
  | usage
  | help
  | version
deriving DecidableEq

/-- What an argument may name. -/
inductive Switch
  | help
  | version
  | verbose
  | legacy
  | plan
  | lastApplied
  | format
  | dialectVersion
  | appVersion
deriving DecidableEq

namespace Switch

def long : Switch → String
  | help => "help"
  | version => "version"
  | verbose => "verbose"
  | legacy => "legacy"
  | plan => "plan"
  | lastApplied => "last-applied"
  | format => "format"
  | dialectVersion => "dialect-version"
  | appVersion => "app-version"

def short? : Switch → Option Char
  | help => some 'h'
  | version => some 'V'
  | verbose => some 'v'
  | plan => some 'p'
  | lastApplied => some 'l'
  | format => some 'f'
  | legacy | dialectVersion | appVersion => none

def takesValue : Switch → Bool
  | plan | lastApplied | format | dialectVersion | appVersion => true
  | help | version | verbose | legacy => false

end Switch

/-- An identifier of sixty-four bits, with a sign or without. -/
def identifier? (text : String) : Option Int :=
  (Number.integer? text.toList).filter Json.Decoder.isWord

/-- Whether a switch can have a value. -/
def Switch.accepts (value : String) : Switch → Bool
  | .plan => value ≠ ""
  | .lastApplied => (identifier? value).isSome
  | .format => (Format.ofName? value).isSome
  | _ => true

/-- The switches given so far with their values, and the one whose value has to
follow. -/
structure Reading where
  given : List (Switch × String)
  pending : Option Switch

namespace Reading

def start : Reading := ⟨[], none⟩

def value? (reading : Reading) (switch : Switch) : Option String :=
  (reading.given.find? (·.1 = switch)).map (·.2)

/-- Adds a switch, which may be given once. -/
def give (reading : Reading) (switch : Switch) (value : String) : Except Stop Reading :=
  if (reading.value? switch).isSome || !switch.accepts value then .error .usage
  else .ok ⟨reading.given ++ [(switch, value)], none⟩

/-- A switch without a value. -/
def giveFlag (reading : Reading) : Switch → Except Stop Reading
  | .help => .error .help
  | .version => .error .version
  | switch => reading.give switch ""

/-- A switch by its long name, with the value attached to it if any. -/
def readLong (accepted : List Switch) (reading : Reading) (name : String)
    (attached : Option String) : Except Stop Reading :=
  match accepted.find? (·.long = name), attached with
  | none, _ => .error .usage
  | some switch, some value =>
      if switch.takesValue then reading.give switch value else .error .usage
  | some switch, none =>
      if switch.takesValue then .ok { reading with pending := some switch }
      else reading.giveFlag switch

/-- Switches by their letters.  What follows the letter of a switch with a value
is that value, after an equals sign or not. -/
def readShort (accepted : List Switch) (reading : Reading) :
    List Char → Except Stop Reading
  | [] => .ok reading
  | letter :: rest =>
      match accepted.find? (·.short? = some letter) with
      | none => .error .usage
      | some switch =>
          if !switch.takesValue then do
            let reading ← reading.giveFlag switch
            readShort accepted reading rest
          else
            match rest with
            | [] => .ok { reading with pending := some switch }
            | '=' :: value => reading.give switch (String.ofList value)
            | value => reading.give switch (String.ofList value)

/-- The name of a long switch and the value after its first equals sign. -/
def splitLong (text : List Char) : String × Option String :=
  let name := String.ofList (text.takeWhile (· ≠ '='))
  match text.dropWhile (· ≠ '=') with
  | _ :: value => (name, some (String.ofList value))
  | [] => (name, none)

/-- Whether an argument can be the value of the switch before it. -/
def isValue (argument : String) : Bool :=
  argument.toList.head? ≠ some '-' || argument = "-"

/-- Reads switches up to the first argument that is none of them, which a double
dash is not either. -/
def read (accepted : List Switch) (reading : Reading) :
    List String → Except Stop (Reading × List String)
  | [] => if reading.pending.isSome then .error .usage else .ok (reading, [])
  | argument :: rest =>
      match reading.pending with
      | some switch =>
          if isValue argument then do
            let reading ← reading.give switch argument
            read accepted reading rest
          else .error .usage
      | none =>
          match argument.toList with
          | ['-', '-'] => .ok (reading, argument :: rest)
          | '-' :: '-' :: text => do
              let (name, attached) := splitLong text
              let reading ← readLong accepted reading name attached
              read accepted reading rest
          | '-' :: letter :: letters => do
              let reading ← readShort accepted reading (letter :: letters)
              read accepted reading rest
          | _ => .ok (reading, argument :: rest)

end Reading

/-- Reads arguments that are all switches; a double dash may end them. -/
def readSwitches (accepted : List Switch) (arguments : List String) :
    Except Stop Reading := do
  match ← Reading.read accepted Reading.start arguments with
  | (reading, []) => pure reading
  | (reading, ["--"]) => pure reading
  | _ => .error .usage

/-- The task of a subcommand with its arguments.  `environmentVersion` is the
engine version that the environment gives. -/
def task (environmentVersion : Option String) (subcommand : String)
    (arguments : List String) : Except Stop Task :=
  match subcommand with
  | "steps" => do
      let reading ← readSwitches
        [.help, .plan, .lastApplied, .format, .dialectVersion, .appVersion] arguments
      let some plan := reading.value? .plan | .error .usage
      pure (.steps {
        plan
        lastApplied := (reading.value? .lastApplied).bind identifier?
        format := ((reading.value? .format).bind Format.ofName?).getD .sql
        dialectVersion := reading.value? .dialectVersion <|> environmentVersion
        appVersion := reading.value? .appVersion })
  | "types" => do
      let reading ← readSwitches [.help, .plan] arguments
      let some plan := reading.value? .plan | .error .usage
      pure (.rowTypes plan)
  | "init" => do
      let reading ← readSwitches [.help, .legacy] arguments
      pure (.history (reading.value? .legacy).isSome)
  | "help" =>
      if arguments.all (["steps", "types", "init", "help"].contains ·) &&
          arguments.length ≤ 1 then .error .help
      else .error .usage
  | _ => .error .usage

/-- The invocation that arguments stand for. -/
def invocation (environmentVersion : Option String) (arguments : List String) :
    Except Stop Invocation := do
  match ← Reading.read [.help, .version, .verbose] Reading.start arguments with
  | (reading, subcommand :: rest) => do
      let task ← task environmentVersion subcommand rest
      pure ⟨(reading.value? .verbose).isSome, task⟩
  | (_, []) => .error .usage

end SchemaMigration.CommandLine
