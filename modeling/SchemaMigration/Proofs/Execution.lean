import SchemaMigration.Proofs.Database
import SchemaMigration.Proofs.ExecutedTexts
import SchemaMigration.Proofs.PlannedRuns

/-!
# Executing what a run compiles

The statements of a run never fail on a database that starts empty, and after
each flush the database has the tables of the registry.  This needs one thing of
the run: that a table about to be rebuilt does not find its scratch name taken.
-/

namespace SchemaMigration

namespace Planner

/-- Whether a segment that is planned as a rebuild finds its scratch name free. -/
def scratchFree : SegmentCheck :=
  SegmentCheck.ofAlteration fun planner registry _ stored actions target =>
    !planner.needsRebuild registry stored actions || !registry.contains target.scratchName

variable {planner : Planner} {registry next : Registry} {source : String}
  {batch : BatchPlan}

theorem contains_of_scratchFree {stored target : Table} {actions : List Action}
    (hfind : registry.find? source = some stored)
    (happly : registry.applyAll stored actions = .ok target)
    (hrebuild : planner.needsRebuild registry stored actions = true)
    (hscratch : planner.scratchFree registry source (.alter actions) = true) :
    registry.contains target.scratchName = false := by
  rw [scratchFree, SegmentCheck.ofAlteration_alter _ hfind happly, hrebuild] at hscratch
  simpa using hscratch

end Planner

/-! ## One segment after another -/

namespace ColumnSemantics

variable {β : Type} [Named β] (semantics : ColumnSemantics β)
  (hview : ∀ old new column,
    semantics.view (Column.retarget old new column) = semantics.view column)
  {planner : Planner} {registry next : Registry} {source : String} {batch : BatchPlan}
include hview

theorem execAll_planAlteration {actions : List Action} (halters : Segment.Alters actions)
    (hscratch : planner.scratchFree registry source (.alter actions) = true)
    (hplan : planner.planAlteration registry source actions = .ok (next, batch)) :
    semantics.execAll batch.statements (semantics.seen registry.schema) =
      some (semantics.seen next.schema) := by
  have hschema := Planner.schema_planAlteration planner halters registry source
  rw [hplan] at hschema
  obtain ⟨stored, target, hfind, happly, -, hplace, hbatch⟩ := Planner.planAlteration_cases hplan
  rcases hbatch with ⟨hrebuild, rfl⟩ | ⟨-, statements, hdirect, rfl⟩
  · have hunused := Planner.contains_of_scratchFree hfind happly hrebuild hscratch
    have hrebuilt := semantics.seen_rebuilt hview registry.schema source target
    rw [hplace]
    exact (semantics.execAll_planned halters hfind happly hunused).trans
      (congrArg some hrebuilt)
  · refine (semantics.execAll_direct planner.replaceExisting hdirect registry.schema).trans ?_
    rw [← hschema]
    rfl

/-- Planning a segment and executing its statements keep the registry and the
database in step. -/
theorem execAll_planSegment {segment : Segment} (hwell : segment.WellFormed)
    (hscratch : planner.scratchFree registry source segment = true)
    (hplan : planner.planSegment registry source segment = .ok (next, batch)) :
    semantics.execAll batch.statements (semantics.seen registry.schema) =
      some (semantics.seen next.schema) := by
  cases segment with
  | alter actions => exact semantics.execAll_planAlteration hview hwell hscratch hplan
  | create columns => exact semantics.execAll_planCreation hplan
  | drop => exact semantics.execAll_planDrop hplan

/-- Executing the statements of one segment after another does so as well. -/
theorem keeps_seen : SegmentCheck.Keeps Planner.scratchFree fun registry statements =>
    semantics.execAll statements Catalog.empty = some (semantics.seen registry.schema) := by
  intro planner registry next table segment batch statements hwell hscratch hplan hexec
  rw [TableSemantics.execAll, List.foldlM_append]
  refine Option.bind_eq_some_iff.mpr ⟨_, hexec, ?_⟩
  exact semantics.execAll_planSegment hview hwell hscratch hplan

end ColumnSemantics

namespace Compilation

/-- Whether every flush of a run that succeeds finds the scratch names of its rebuilds
free. -/
def scratchFreeRun (compilation : Compilation) (commands : List Command) : Bool :=
  SegmentCheck.onRun Planner.scratchFree compilation commands

/-- The statements compiled so far give the tables of the registry. -/
def InStep (compilation : Compilation) : Prop :=
  Statement.execAll compilation.statements Catalog.empty =
    some compilation.registry.schema.stored

theorem inStep_new (settings : Settings) : (new settings).InStep := rfl

theorem inStep_run {compilation : Compilation} (hstep : compilation.InStep)
    {commands : List Command} (hscratch : compilation.scratchFreeRun commands = true) :
    (compilation.run commands).InStep :=
  (StoredColumn.semantics.keeps_seen StoredColumn.ofColumn_retarget).run hscratch hstep

/-- The texts compiled by a run give the tables of the registry. -/
theorem execTexts_run (settings : Settings) {commands : List Command}
    (hscratch : (new settings).scratchFreeRun commands = true) :
    Step.execTexts ((new settings).run commands).allSteps Catalog.empty =
      some (((new settings).run commands).registry.schema.mapColumns Column.outline) := by
  rw [Step.execTexts_eq]
  exact (Sql.semantics.keeps_seen Column.outline_retarget).run hscratch rfl

/-- The texts of the statements of a run are read back as what they were made of, and
executing them one after another never fails on a database that starts empty.  They leave
it with the tables of the registry, each column defined as the registry has it. -/
theorem execAll_run (settings : Settings) (commands : List Command)
    (hscratch : (new settings).scratchFreeRun commands = true) :
    (∀ step ∈ ((new settings).run commands).allSteps, ∀ statement,
        step.statement? = some statement →
          ∃ text, step.query? = some text ∧ Sql.read? text = some statement.outline) ∧
      ((new settings).run commands).registry.Distinct ∧
      ∃ database,
        Step.execTexts ((new settings).run commands).allSteps Catalog.empty = some database ∧
        ∀ name,
          (database name).map (List.map fun definition => (definition.name, definition.text)) =
            (((new settings).run commands).registry.find? name).map fun table =>
              table.columns.map fun column => (column.name, column.definition) := by
  refine ⟨fun step _ statement hstatement => ?_, (coherent_run settings commands).distinct,
    _, execTexts_run settings hscratch, fun name => ?_⟩
  · exact ⟨_, Step.query?_of_statement? hstatement, statement.read?_sql⟩
  · simp only [Catalog.mapColumns, Registry.schema, Option.map_map, Function.comp_def,
      List.map_map, Column.text_outline]
    rfl

/-- A run whose second flush rebuilds a table and whose third writes to tables in
place. -/
def rebuilding : List Command :=
  [.start,
    .enqueue "people" (.createTable [{ name := "id", type := .identity },
      { name := "age", type := .integer }]),
    .flush,
    .enqueue "people" (.changeColumn "age" (some { name := "age", type := .text }) none),
    .enqueue "people" (.renameTable "persons"),
    .sql "VACUUM;" [],
    .enqueue "persons" (.addColumn
      { name := "home", type := .foreign, references := some "places" } none),
    .enqueue "places" (.createTable [{ name := "id", type := .identity }]),
    .flush]

theorem execAll_rebuilding :
    (new {}).scratchFreeRun rebuilding = true ∧
      ((new {}).run rebuilding).allSteps.filterMap Step.query? = [
        "INSERT INTO \"migrations\" (\"id\", \"version\", \"timestamp\") VALUES (?, ?, ?);",
        "CREATE TABLE \"people\" (\"id\" INTEGER PRIMARY KEY AUTOINCREMENT, \"age\" INTEGER);",
        "CREATE TABLE \"persons_tmp\" (\"id\" INTEGER PRIMARY KEY AUTOINCREMENT, \"age\" TEXT);",
        "INSERT INTO \"persons_tmp\" (\"id\", \"age\") SELECT \"id\", \"age\" FROM \"people\";",
        "DROP TABLE \"people\";",
        "ALTER TABLE \"persons_tmp\" RENAME TO \"persons\";",
        "VACUUM;",
        "ALTER TABLE \"persons\" ADD COLUMN \"home\" INTEGER REFERENCES \"places\"(\"id\");",
        "CREATE TABLE \"places\" (\"id\" INTEGER PRIMARY KEY AUTOINCREMENT);"] ∧
      ∃ database,
        Step.execTexts ((new {}).run rebuilding).allSteps Catalog.empty = some database ∧
          (database "persons").map (List.map Sql.Definition.text) =
            some ["\"id\" INTEGER PRIMARY KEY AUTOINCREMENT", "\"age\" TEXT",
              "\"home\" INTEGER"] := by
  have hscratch : (new {}).scratchFreeRun rebuilding = true := by decide
  have htracked : (((new {}).run rebuilding).registry.find? "persons").map
      (fun table => table.columns.map fun column => (column.name, column.definition)) =
        some [("id", "\"id\" INTEGER PRIMARY KEY AUTOINCREMENT"), ("age", "\"age\" TEXT"),
          ("home", "\"home\" INTEGER")] := by
    decide
  obtain ⟨-, -, database, hexec, htables⟩ := execAll_run {} rebuilding hscratch
  have hpersons := congrArg (Option.map (List.map Prod.snd)) ((htables "persons").trans htracked)
  refine ⟨hscratch, by decide, database, hexec, ?_⟩
  simpa [Function.comp_def] using hpersons

end Compilation

end SchemaMigration
