import SchemaMigration.Proofs.Execution
import SchemaMigration.Proofs.PlannedRuns
import SchemaMigration.Proofs.UndisturbedReferences

/-!
# What foreign columns reference in the database

In the database a renaming redirects the foreign columns of all tables that
reference the old name, while dropping a table redirects none.  A rebuild drops
the stored table and renames the scratch table, so that the references follow it
only where no other table is concerned.
-/

namespace SchemaMigration

namespace Statement

/-- What a statement does to the tables of a database and to the tables that their
foreign columns reference. -/
def execLinked : Statement → Schema → Option Schema
  | createTable name columns, schema => schema.create name columns
  | dropTable name, schema => schema.drop name
  | renameTable old new, schema =>
      (schema.move old new).map (Catalog.mapColumns (Column.retarget old new))
  | addColumn table column, schema => schema.alter table (Columns.add column)
  | dropColumn table column, schema => schema.alter table (Columns.drop column)
  | renameColumn table old new, schema => schema.alter table (Columns.rename old new)
  | copyRows target _ source, schema =>
      if (schema target).isSome && (schema source).isSome then some schema else none

def execLinkedAll (statements : List Statement) (schema : Schema) : Option Schema :=
  statements.foldlM (fun schema statement => statement.execLinked schema) schema

theorem execLinkedAll_append (first second : List Statement) (schema : Schema) :
    execLinkedAll (first ++ second) schema =
      (execLinkedAll first schema).bind (execLinkedAll second) :=
  List.foldlM_append

end Statement

/-- Columns with their references give a semantics of statements. -/
def Schema.semantics : ColumnSemantics Column where
  view := id
  follow := Column.retarget
  exec := Statement.execLinked
  follow_view _ _ _ := rfl
  exec_createTable name columns schema := by
    rw [List.map_id]
    rfl
  exec_dropTable _ _ := rfl
  exec_renameTable _ _ _ := rfl
  exec_copyRows target copies source schema htarget hsource := by
    rw [Statement.execLinked, htarget, hsource]
    rfl
  hom := Column.hom_id
  exec_addColumn _ _ _ := rfl
  exec_dropColumn _ _ _ := rfl
  exec_renameColumn _ _ _ _ := rfl

theorem Schema.seen_semantics (schema : Schema) : semantics.seen schema = schema :=
  Catalog.mapColumns_id schema

/-! ## By a rebuild -/

namespace Schema

/-- A rebuild redirects the references that it is to redirect: none is to the scratch
name, and where the table gets a new name no other table references it. -/
structure Linked (schema : Schema) (source : String) (target : Table) : Prop where
  scratch : Unreferenced target.scratchName
    ((schema.set source none).set target.name (some target.columns))
  source : target.name = source ∨ Unreferenced source (schema.set source none)

variable {schema : Schema} {source : String} {target : Table}

theorem rebuilt_of_linked (hlinked : schema.Linked source target) :
    schema.rebuilt source target = schema.place source target := by
  rw [rebuilt, mapColumns_retarget_of_unreferenced _ hlinked.scratch, place]
  split
  next hsame => rw [hsame, Catalog.set_set]
  next hmoved =>
    have hsource := hlinked.source.resolve_left hmoved
    rw [mapColumns_retarget_of_unreferenced _ hsource]

/-- Nothing less will do: a reference of another table to either name is redirected by
one of the two and not by the other. -/
theorem linked_of_targets_eq (hsource : source ≠ target.scratchName)
    (hfree : target.name = source ∨ schema target.name = none)
    (htargets : (schema.rebuilt source target).targets = (schema.place source target).targets) :
    schema.Linked source target := by
  by_cases hsame : target.name = source
  · have hplace : schema.place source target =
        (schema.set source none).set target.name (some target.columns) := by
      rw [place, if_pos hsame, hsame, Catalog.set_set]
    rw [hplace] at htargets
    exact ⟨unreferenced_of_targets_eq target.scratchName_ne.symm htargets, Or.inl hsame⟩
  · have hfreed : schema.set source none target.name = none := by
      rw [Catalog.set_of_ne _ _ hsame]
      exact hfree.resolve_left hsame
    rw [rebuilt, Catalog.mapColumns_set, place, if_neg hsame] at htargets
    have hown : ∀ column ∈ target.columns, column.target? ≠ some target.scratchName := by
      intro column hmem htarget
      have hcolumns := congrFun htargets target.name
      rw [Option.map_some, targets_set, targets_set, Option.some.injEq, List.map_map] at hcolumns
      have hcolumn := List.map_inj_left.mp hcolumns column hmem
      rw [Function.comp_apply, Column.target?_retarget, if_pos htarget, htarget] at hcolumn
      exact target.scratchName_ne (Option.some.inj hcolumn).symm
    have hother : ∀ table columns, schema.set source none table = some columns →
        ∀ column ∈ columns,
          column.target? ≠ some target.scratchName ∧ column.target? ≠ some source := by
      intro table columns htable column hmem
      have hname : table ≠ target.name := by
        rintro rfl
        rw [hfreed] at htable
        cases htable
      have hcolumns := congrFun htargets table
      rw [targets, targets, Catalog.set_of_ne _ _ hname, Catalog.set_of_ne _ _ hname,
        Catalog.mapColumns, Catalog.mapColumns, htable, Option.map_some, Option.map_some,
        Option.map_some, Option.map_some, Option.some.injEq, List.map_map, List.map_map]
        at hcolumns
      have hcolumn := List.map_inj_left.mp hcolumns column hmem
      rw [Function.comp_apply, Function.comp_apply, Column.target?_retarget,
        Column.target?_retarget] at hcolumn
      have hscratch := target.scratchName_ne
      constructor
      · rintro htarget
        simp [htarget, hsource.symm, hscratch.symm] at hcolumn
      · rintro htarget
        simp [htarget, hsource, Ne.symm hsame] at hcolumn
    constructor
    · intro table columns htable column hmem
      by_cases hname : table = target.name
      · subst hname
        rw [Catalog.set_self] at htable
        cases htable
        exact hown column hmem
      · rw [Catalog.set_of_ne _ _ hname] at htable
        exact (hother table columns htable column hmem).1
    · exact Or.inr fun table columns htable column hmem =>
        (hother table columns htable column hmem).2

end Schema

/-! ## Seen in the registry -/

namespace Registry

variable {registry : Registry} {source : String} {target : Table}

/-- Whether a rebuild of the table called `source` redirects the references that the
registry redirects. -/
def follows (registry : Registry) (source : String) (target : Table) : Bool :=
  (target.columns.all fun column => column.target? ≠ some target.scratchName) &&
    registry.tables.all fun other =>
      other.name = source ||
        other.columns.all fun column =>
          column.target? ≠ some target.scratchName &&
            (target.name = source || column.target? ≠ some source)

theorem find?_of_mem (hdistinct : registry.Distinct) {table : Table}
    (hmem : table ∈ registry.tables) : registry.find? table.name = some table :=
  find?_eq_some_of_nodup hdistinct hmem

/-- The tables but one, seen as a schema and in the registry. -/
theorem unreferenced_iff (hdistinct : registry.Distinct) (source name : String) :
    Schema.Unreferenced name (registry.schema.set source none) ↔
      ∀ other ∈ registry.tables, other.name ≠ source →
        ∀ column ∈ other.columns, column.target? ≠ some name := by
  constructor
  · intro hunreferenced other hmem hother
    apply hunreferenced other.name other.columns
    rw [Catalog.set_of_ne _ _ hother, schema, find?_of_mem hdistinct hmem]
    rfl
  · intro hunreferenced table columns htable
    have hother : table ≠ source := by
      rintro rfl
      rw [Catalog.set_self] at htable
      cases htable
    rw [Catalog.set_of_ne _ _ hother] at htable
    obtain ⟨other, hfind, rfl⟩ := Option.map_eq_some_iff.mp htable
    have hname := name_of_find? hfind
    exact hunreferenced other (List.mem_of_find?_eq_some hfind) (hname ▸ hother)

theorem follows_iff (hdistinct : registry.Distinct)
    (hfree : target.name = source ∨ registry.contains target.name = false) :
    registry.follows source target = true ↔ registry.schema.Linked source target := by
  have hfreed : registry.schema.set source none target.name = none := by
    by_cases hsame : target.name = source
    · rw [hsame, Catalog.set_self]
    · rw [Catalog.set_of_ne _ _ hsame, schema_eq_none (hfree.resolve_left hsame)]
  have hscratch : Schema.Unreferenced target.scratchName
      ((registry.schema.set source none).set target.name (some target.columns)) ↔
        (∀ column ∈ target.columns, column.target? ≠ some target.scratchName) ∧
          Schema.Unreferenced target.scratchName (registry.schema.set source none) := by
    constructor
    · intro hunreferenced
      refine ⟨hunreferenced target.name target.columns (Catalog.set_self ..), ?_⟩
      intro table columns htable
      apply hunreferenced table columns
      rw [Catalog.set_of_ne, htable]
      rintro rfl
      rw [hfreed] at htable
      cases htable
    · rintro ⟨hown, hothers⟩
      refine Schema.unreferenced_set hothers target.name fun list hlist => ?_
      cases hlist
      exact hown
  have hlinked : registry.schema.Linked source target ↔
      ((∀ column ∈ target.columns, column.target? ≠ some target.scratchName) ∧
        Schema.Unreferenced target.scratchName (registry.schema.set source none)) ∧
      (target.name = source ∨
        Schema.Unreferenced source (registry.schema.set source none)) := by
    rw [← hscratch]
    exact ⟨fun hlinked => ⟨hlinked.scratch, hlinked.source⟩, fun hboth => ⟨hboth.1, hboth.2⟩⟩
  rw [hlinked, unreferenced_iff hdistinct, unreferenced_iff hdistinct]
  simp only [follows, Bool.and_eq_true, List.all_eq_true, Bool.or_eq_true, decide_eq_true_eq]
  grind

end Registry

/-- A segment that is planned as a rebuild redirects the references that the registry
redirects. -/
def SegmentCheck.keepsTargets : SegmentCheck :=
  ofAlteration fun planner registry source stored actions target =>
    !planner.needsRebuild registry stored actions || registry.follows source target

namespace Planner

variable {planner : Planner} {registry next : Registry} {source : String} {batch : BatchPlan}

/-- An alteration never fails, and leaves the references that the registry has
exactly if it is written in place or the rebuild redirects what is to be redirected. -/
theorem execLinkedAll_planAlteration {actions : List Action} (hdistinct : registry.Distinct)
    (halters : Segment.Alters actions)
    (hscratch : planner.scratchFree registry source (.alter actions) = true)
    (hplan : planner.planAlteration registry source actions = .ok (next, batch)) :
    ∃ after, Statement.execLinkedAll batch.statements registry.schema = some after ∧
      (SegmentCheck.keepsTargets planner registry source (.alter actions) = true →
        after = next.schema) ∧
      (after.targets = next.schema.targets →
        SegmentCheck.keepsTargets planner registry source (.alter actions) = true) := by
  have hschema := schema_planAlteration planner halters registry source
  rw [hplan] at hschema
  obtain ⟨stored, target, hfind, happly, -, hplace, houtcome⟩ := planAlteration_cases hplan
  have hchecked : SegmentCheck.keepsTargets planner registry source (.alter actions) =
      (!planner.needsRebuild registry stored actions || registry.follows source target) :=
    SegmentCheck.ofAlteration_alter _ hfind happly
  rcases houtcome with ⟨hrebuild, rfl⟩ | ⟨hdirect, statements, hstatements, rfl⟩
  · have hunused := contains_of_scratchFree hfind happly hrebuild hscratch
    have hexec := Schema.semantics.execAll_planned halters hfind happly hunused
    rw [Schema.seen_semantics, Schema.seen_semantics] at hexec
    have hfree := Registry.name_of_applyAll halters hfind happly
    have hother : source ≠ target.scratchName := by
      rintro rfl
      rw [Registry.contains_of_find? hfind] at hunused
      cases hunused
    rw [hchecked, hrebuild, Bool.not_true, Bool.false_or, Registry.follows_iff hdistinct hfree,
      hplace]
    exact ⟨registry.schema.rebuilt source target, hexec, Schema.rebuilt_of_linked,
      Schema.linked_of_targets_eq hother (hfree.imp_right Registry.schema_eq_none)⟩
  · have hexec := Schema.semantics.execAll_direct planner.replaceExisting hstatements
      registry.schema
    rw [Schema.seen_semantics, funext Schema.seen_semantics, Option.map_id', ← hschema] at hexec
    rw [hchecked, hdirect, Bool.not_false, Bool.true_or]
    exact ⟨next.schema, hexec, fun _ => rfl, fun _ => rfl⟩

end Planner

/-! ## Runs -/

/-- A segment finds the scratch name of its rebuild free and redirects the references
that the registry redirects. -/
def SegmentCheck.linked : SegmentCheck := fun planner registry table segment =>
  planner.scratchFree registry table segment && keepsTargets planner registry table segment

namespace Registry

/-- Executing the statements from an empty database gives the tables of the registry
with the references that it has. -/
structure Executed (registry : Registry) (statements : List Statement) : Prop where
  distinct : registry.Distinct
  schema_eq : Statement.execLinkedAll statements Catalog.empty = some registry.schema

theorem keeps_executed : SegmentCheck.linked.Keeps Executed := by
  intro planner registry next table segment batch statements hwell hcheck hplan hexecuted
  rw [SegmentCheck.linked, Bool.and_eq_true] at hcheck
  refine ⟨Planner.distinct_planSegment hexecuted.distinct hplan, ?_⟩
  rw [Statement.execLinkedAll_append, hexecuted.schema_eq, Option.bind_some]
  cases segment with
  | alter actions =>
      obtain ⟨after, hexec, hkeeps, -⟩ :=
        Planner.execLinkedAll_planAlteration hexecuted.distinct hwell hcheck.1 hplan
      rw [hexec, hkeeps hcheck.2]
  | create columns =>
      have hexec := Schema.semantics.execAll_planCreation hplan
      rwa [Schema.seen_semantics, Schema.seen_semantics] at hexec
  | drop =>
      have hexec := Schema.semantics.execAll_planDrop hplan
      rwa [Schema.seen_semantics, Schema.seen_semantics] at hexec

end Registry

namespace Compilation

/-- After a run whose rebuilds redirect the references that the registry redirects, the
database has the tables of the registry, each foreign column with the table that the
registry records for it.  An alteration keeps it so exactly if it is written in place
or its rebuild does the same. -/
theorem execLinkedAll_run (settings : Settings) (commands : List Command)
    (hcheck : SegmentCheck.linked.onRun (new settings) commands = true) :
    ∃ database,
      Statement.execLinkedAll ((new settings).run commands).statements Catalog.empty =
          some database ∧
        (∀ name, (database name).map (List.map fun column => (column.name, column.target?)) =
          (((new settings).run commands).registry.find? name).map fun table =>
            table.columns.map fun column => (column.name, column.target?)) ∧
        ∀ (planner : Planner) (source : String) (actions : List Action) (next : Registry)
          (batch : BatchPlan), Segment.Alters actions →
          planner.scratchFree ((new settings).run commands).registry source
              (.alter actions) = true →
            planner.planAlteration ((new settings).run commands).registry source actions =
                .ok (next, batch) →
              ((∃ after, Statement.execLinkedAll batch.statements database = some after ∧
                  after.targets = next.schema.targets) ↔
                SegmentCheck.keepsTargets planner ((new settings).run commands).registry source
                  (.alter actions) = true) := by
  have hexecuted : Registry.Executed ((new settings).run commands).registry
      ((new settings).run commands).statements :=
    Registry.keeps_executed.run hcheck ⟨Registry.distinct_empty, rfl⟩
  refine ⟨((new settings).run commands).registry.schema, hexecuted.schema_eq, ?_, ?_⟩
  · intro name
    rw [Registry.schema, Option.map_map]
    rfl
  · intro planner source actions next batch halters hscratch hplan
    obtain ⟨after, hexec, hkeeps, hkept⟩ :=
      Planner.execLinkedAll_planAlteration hexecuted.distinct halters hscratch hplan
    constructor
    · rintro ⟨reached, hreached, htargets⟩
      rw [hexec] at hreached
      cases hreached
      exact hkept htargets
    · intro hcheck
      exact ⟨after, hexec, by rw [hkeeps hcheck]⟩

/-- A run that creates a table and another that references it. -/
def referring : List Command :=
  [.start,
    .enqueue "species" (.createTable [{ name := "id", type := .identity }]),
    .enqueue "people" (.createTable [{ name := "id", type := .identity },
      { name := "species", type := .foreign, references := some "species" }]),
    .flush]

/-- Renaming the referenced table by a rebuild leaves the other at the old name. -/
theorem not_targets_referring :
    SegmentCheck.linked.onRun (new {}) referring = true ∧
      ∃ database next batch,
        Statement.execLinkedAll ((new {}).run referring).statements Catalog.empty =
            some database ∧
          ((new {}).run referring).planner.planAlteration ((new {}).run referring).registry
              "species" [.renameTable "kinds"] = .ok (next, batch) ∧
          batch.rebuilds = 1 ∧
          ¬∃ after, Statement.execLinkedAll batch.statements database = some after ∧
            after.targets = next.schema.targets := by
  have hcheck : SegmentCheck.linked.onRun (new {}) referring = true := by decide
  have hresult : (((new {}).run referring).planner.planAlteration
      ((new {}).run referring).registry "species" [.renameTable "kinds"]).toOption.map
        (fun planned => planned.2.rebuilds) = some 1 := by
    decide
  obtain ⟨⟨next, batch⟩, hplanned, hrebuilds⟩ := Option.map_eq_some_iff.mp hresult
  have hplan := toOption_eq_some_iff.mp hplanned
  have hscratch : ((new {}).run referring).planner.scratchFree
      ((new {}).run referring).registry "species" (.alter [.renameTable "kinds"]) = true := by
    decide
  have hlost : SegmentCheck.keepsTargets ((new {}).run referring).planner
      ((new {}).run referring).registry "species" (.alter [.renameTable "kinds"]) = false := by
    decide
  obtain ⟨database, hexec, -, halteration⟩ := execLinkedAll_run {} referring hcheck
  have hiff := halteration _ "species" [.renameTable "kinds"] next batch
    (Segment.alters_renameTable "kinds") hscratch hplan
  refine ⟨hcheck, database, next, batch, hexec, hplan, hrebuilds, ?_⟩
  rw [hiff, hlost]
  exact Bool.false_ne_true

end Compilation

end SchemaMigration
