import SchemaMigration.Dialect.Capability
import SchemaMigration.Planning.Segment
import SchemaMigration.Schema.Registry
import SchemaMigration.Sql.Rebuild

/-!
# The planner

The planner compiles the batch of one table.  A segment is emitted as one
`ALTER TABLE` statement per action when no action forces a rebuild; otherwise
all its actions are resolved on a copy of the table and one rebuild to the final
shape is emitted.
-/

namespace SchemaMigration

/-- What a batch compiles to: the statements, how many rebuilds they contain,
and the name of the table afterwards. -/
structure BatchPlan where
  table : String
  statements : List Statement
  rebuilds : Nat
deriving DecidableEq

structure Planner where
  dialect : String
  capabilities : Capabilities
  replaceExisting : Bool

namespace Registry

/-- Applies an action to a copy of a tracked table.  A new table name must be
free in the registry. -/
def applyTo (registry : Registry) (table : Table) : Action → Except MigrationError Table
  | .addColumn column params => table.addColumn column params
  | .changeColumn name definition params => table.changeColumn name definition params
  | .dropColumn name => table.dropColumn name
  | .renameColumn old new => table.renameColumn old new
  | .renameTable new =>
      if registry.contains new then .error (.tableExists new)
      else .ok ({ table with name := new }.retarget table.name new)
  | .createTable _ | .dropTable => .ok table

/-- Applies actions one after another. -/
def applyAll (registry : Registry) (table : Table) (actions : List Action) :
    Except MigrationError Table :=
  actions.foldlM registry.applyTo table

end Registry

namespace Planner

/-- Whether an action on a table in this state needs a rebuild. -/
def forcesRebuild (planner : Planner) (table : Table) : Action → Bool
  | .createTable _ | .dropTable => false
  | .addColumn column params =>
      column.isIdentity || column.primaryKey || (params.bind (·.fillFrom)).isSome
  | .changeColumn _ _ _ => true
  | .dropColumn name =>
      !planner.capabilities.dropColumn ||
        (table.column? name).any fun column =>
          column.isIdentity || column.isForeign || column.primaryKey
  | .renameColumn _ _ => !planner.capabilities.renameColumn
  | .renameTable _ => !planner.capabilities.renameTable

/-- Of actions applied one after another, the first that needs a rebuild in the
state it meets, with that state. -/
def firstForced? (planner : Planner) (registry : Registry) (table : Table) :
    List Action → Option (Table × Action)
  | [] => none
  | action :: rest =>
      if planner.forcesRebuild table action then some (table, action)
      else
        match registry.applyTo table action with
        | .ok next => planner.firstForced? registry next rest
        | .error _ => none

def needsRebuild (planner : Planner) (registry : Registry) (table : Table)
    (actions : List Action) : Bool :=
  (planner.firstForced? registry table actions).isSome

def unsupported (planner : Planner) (operation table : String) : MigrationError :=
  .unsupported planner.dialect operation table

/-- The statement that alters `table` in place.  A form that the engine lacks
is refused. -/
def direct (planner : Planner) (table : String) : Action → Except MigrationError Statement
  | .addColumn column _ => .ok (.addColumn table column)
  | .dropColumn name =>
      if planner.capabilities.dropColumn then .ok (.dropColumn table name)
      else .error (planner.unsupported "DROP COLUMN" table)
  | .renameColumn old new =>
      if planner.capabilities.renameColumn then .ok (.renameColumn table old new)
      else .error (planner.unsupported "RENAME COLUMN" table)
  | .renameTable new =>
      if planner.capabilities.renameTable then .ok (.renameTable table new)
      else .error (planner.unsupported "RENAME TABLE" table)
  | .changeColumn _ _ _ => .error (planner.unsupported "ALTER COLUMN" table)
  | .createTable columns =>
      .error (planner.unsupported ((Action.createTable columns).description table) table)
  | .dropTable => .error (planner.unsupported (Action.dropTable.description table) table)

/-- Compiles one alteration of a tracked table. -/
def planAlteration (planner : Planner) (registry : Registry) (source : String)
    (actions : List Action) : Except MigrationError (Registry × BatchPlan) :=
  match registry.find? source with
  | none => .error (.tableNotFound source)
  | some stored => do
      let target ← registry.applyAll stored actions
      if planner.needsRebuild registry stored actions then
        let registry ← registry.replace source target.forgetParams.settle
        pure (registry, ⟨target.name, target.rebuild source, 1⟩)
      else
        let statements ← actions.mapM (planner.direct source)
        let registry ← registry.replace source target.settle
        pure (registry, ⟨target.name, statements, 0⟩)

/-- Compiles the creation of a table.  A table already tracked under the name
is dropped first where the planner may replace it. -/
def planCreation (planner : Planner) (registry : Registry) (name : String)
    (columns : List Column) : Except MigrationError (Registry × BatchPlan) := do
  let table ← Table.ofColumns name columns
  if registry.contains name then
    if planner.replaceExisting then
      let registry ← registry.remove name
      let registry ← registry.insert table
      pure (registry, ⟨name, [.dropTable name, .createTable name columns], 0⟩)
    else .error (.tableExists name)
  else
    let registry ← registry.insert table
    pure (registry, ⟨name, [.createTable name columns], 0⟩)

/-- Compiles the end of a table. -/
def planDrop (registry : Registry) (name : String) :
    Except MigrationError (Registry × BatchPlan) := do
  let registry ← registry.remove name
  pure (registry, ⟨name, [.dropTable name], 0⟩)

def planSegment (planner : Planner) (registry : Registry) (table : String) :
    Segment → Except MigrationError (Registry × BatchPlan)
  | .alter actions => planner.planAlteration registry table actions
  | .create columns => planner.planCreation registry table columns
  | .drop => planDrop registry table

/-- Compiles segments one after another, each against the registry that the
ones before it left. -/
def planSegments (planner : Planner) (table : String)
    (planned : Registry × BatchPlan) (segments : List Segment) :
    Except MigrationError (Registry × BatchPlan) :=
  segments.foldlM (fun (registry, batch) segment => do
    let (registry, more) ← planner.planSegment registry table segment
    pure (registry, ⟨more.table, batch.statements ++ more.statements,
      batch.rebuilds + more.rebuilds⟩)) planned

/-- Compiles the actions declared for a table.  Every action is resolved
against that name, so that what follows a renaming finds the name free. -/
def plan (planner : Planner) (registry : Registry) (table : String)
    (actions : List Action) : Except MigrationError (Registry × BatchPlan) :=
  planner.planSegments table (registry, ⟨table, [], 0⟩) (Segment.cut actions)

end Planner

end SchemaMigration
