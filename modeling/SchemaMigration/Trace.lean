import SchemaMigration.Plan.Basic

/-!
# The log of a compilation

What a compilation reports while it runs, up to the point where it fails.  The
log is derived from the same functions that compile, and it changes nothing.
-/

namespace SchemaMigration

inductive Level
  | debug
  | info
  | warn
deriving DecidableEq

def Level.name : Level → String
  | debug => "DEBUG"
  | info => "INFO"
  | warn => "WARN"

structure Event where
  level : Level
  message : String
deriving DecidableEq

/-- A character of a message as the log shows it: the control characters that
could drive a terminal are spelled out. -/
def Event.shownChar (c : Char) : List Char :=
  let code := c.toNat
  if code = 0x07 ∨ code = 0x08 ∨ code = 0x0c ∨ code = 0x1b ∨ code = 0x7f then
    ['\\', 'x', Nat.digitChar (code / 16), Nat.digitChar (code % 16)]
  else if 0x80 ≤ code ∧ code ≤ 0x9f then
    '\\' :: 'u' :: '\x7b' :: (Nat.toDigits 16 code ++ ['\x7d'])
  else [c]

/-- The message as the log shows it. -/
def Event.shown (event : Event) : String :=
  String.ofList (event.message.toList.flatMap Event.shownChar)

namespace Trace

def debug (message : String) : Event := ⟨.debug, message⟩

def info (message : String) : Event := ⟨.info, message⟩

/-- Which action forces a rebuild, and how the alteration was planned. -/
def alteration (planner : Planner) (registry : Registry) (source : String)
    (actions : List Action) : List Event :=
  match registry.find? source with
  | none => []
  | some stored =>
      let forced := match planner.firstForced? registry stored actions with
        | some (table, action) =>
            [debug s!"{action.description table.name} forces recreation of table '{source}'"]
        | none => []
      match planner.planAlteration registry source actions with
      | .error _ => forced
      | .ok (_, batch) =>
          let manner := if batch.rebuilds = 0 then "incremental" else "rebuild"
          forced ++
            [debug s!"Planned {actions.length} action(s) on table '{source}' ({manner})"]

/-- Whether an existing table makes way for the one created. -/
def creation (planner : Planner) (registry : Registry) (name : String)
    (columns : List Column) : List Event :=
  match Table.ofColumns name columns with
  | .error _ => []
  | .ok _ =>
      if registry.contains name && planner.replaceExisting then
        [debug s!"Replacing existing table '{name}'"]
      else []

def segment (planner : Planner) (registry : Registry) (table : String) :
    Segment → List Event
  | .alter actions => alteration planner registry table actions
  | .create columns => creation planner registry table columns
  | .drop => []

def segments (planner : Planner) (table : String) (registry : Registry) :
    List Segment → List Event
  | [] => []
  | first :: rest =>
      segment planner registry table first ++
        match planner.planSegment registry table first with
        | .error _ => []
        | .ok (registry, _) => segments planner table registry rest

/-- The identifier of a migration that may be missing. -/
def optionalId (id : Option Int) : String :=
  match id with
  | none => "None"
  | some id => s!"Some({id})"

def batches (planner : Planner) (current : Option Int) (registry : Registry) :
    List Batch → List Event
  | [] => []
  | batch :: rest =>
      segments planner batch.table registry (Segment.cut batch.actions) ++
        match planner.plan registry batch.table batch.actions with
        | .error _ => []
        | .ok (registry, planned) =>
            (if planned.rebuilds = 0 then []
              else
                [debug (s!"Table '{planned.table}' rebuilt {planned.rebuilds} time(s) " ++
                  s!"in migration {optionalId current}")]) ++
              batches planner current registry rest

def flush (compilation : Compilation) : List Event :=
  batches compilation.planner compilation.currentId? compilation.registry compilation.queue.batches

def capabilities (capabilities : Capabilities) : String :=
  s!"DialectCapabilities \x7b can_drop_column: {capabilities.dropColumn}, " ++
    s!"can_rename_column: {capabilities.renameColumn}, " ++
    s!"can_rename_table: {capabilities.renameTable} \x7d"

/-- A new compilation. -/
def new (compilation : Compilation) : Event :=
  debug (s!"Dialect {compilation.settings.dialect} {compilation.settings.dialectVersion}: " ++
    capabilities compilation.capabilities)

/-- The opening of a migration with a number of operations to come. -/
def openMigration (compilation : Compilation) (operations : Nat) : List Event :=
  flush compilation ++
    match compilation.openMigration with
    | .error _ => []
    | .ok (id, _) =>
        [debug s!"Started migration {id}",
         debug s!"Replaying {operations} operation(s) into migration {id}"]

/-- Only raw SQL compiles what is pending. -/
def operation (compilation : Compilation) : Operation → List Event
  | .sql _ _ => flush compilation
  | _ => []

def operations (compilation : Compilation) : List Operation → List Event
  | [] => []
  | first :: rest =>
      operation compilation first ++
        match first.apply compilation with
        | .error _ => []
        | .ok compilation => operations compilation rest

def migrations (compilation : Compilation) : List DeclaredMigration → List Event
  | [] => []
  | migration :: rest =>
      openMigration compilation migration.operations.length ++
        match compilation.openMigration with
        | .error _ => []
        | .ok (_, opened) =>
            operations opened migration.operations ++
              match migration.apply compilation with
              | .error _ => []
              | .ok compilation => migrations compilation rest

/-- The compilation of a plan. -/
def compile (plan : Plan) (settings : Settings) : List Event :=
  new (Compilation.new settings) :: migrations (Compilation.new settings) plan.migrations

/-- The assembly of a delta. -/
def delta (compilation : Compilation) (applied : Option HistoryRecord) : List Event :=
  if compilation.migrations.isEmpty then [info "No migrations found"]
  else
    let target := compilation.targetId
    let latest := Compilation.latestId compilation.settings applied
    let recorded := match applied with
      | some applied => info s!"Last applied migration: {applied.display}"
      | none => info "No applied migrations recorded"
    recorded ::
      (if latest = target then [info "Database is up-to-date"]
       else if target < latest then
        [⟨.warn, s!"Database is at migration {latest} but only {target} " ++
          "migration(s) are declared"⟩]
       else
        [info s!"Target migration ID: {target}",
         info s!"...{(compilation.delta latest).length} step(s) have been generated"])

/-- The request for the steps of a delta. -/
def steps (compilation : Compilation) (applied : Option HistoryRecord) : List Event :=
  flush compilation ++
    match compilation.flush with
    | .error _ => []
    | .ok compilation => delta compilation applied

end Trace

end SchemaMigration
