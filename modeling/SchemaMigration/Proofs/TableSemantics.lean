import SchemaMigration.Proofs.PlannedSchema

/-!
# Executing statements on whole tables

A database can be viewed in several ways, by what is kept of its columns.  In all
of them creating, dropping, renaming and copying treat a table as a whole, so that
planned creations and drops are executed alike, and so is a rebuild.
-/

namespace SchemaMigration

namespace Schema

/-- The schema once a rebuild has put a table into the place of the one called
`source`: only references to the scratch name are redirected. -/
def rebuilt (schema : Schema) (source : String) (target : Table) : Schema :=
  ((schema.set source none).set target.name (some target.columns)).mapColumns
    (Column.retarget target.scratchName target.name)

end Schema

namespace Table

theorem scratchName_ne (table : Table) : table.scratchName ≠ table.name := by
  intro hname
  have hlength := congrArg String.length hname
  rw [scratchName, String.length_append] at hlength
  have htmp : "_tmp".length = 4 := rfl
  omega

end Table

/-- What executing planned statements needs of a semantics: `view` is what is kept of
a column, and `follow` what a renaming of a table does to the columns of all. -/
structure TableSemantics (β : Type) where
  view : Column → β
  follow : String → String → β → β
  exec : Statement → Catalog β → Option (Catalog β)
  follow_view : ∀ old new column, follow old new (view column) = view (column.retarget old new)
  exec_createTable : ∀ name columns catalog,
    exec (.createTable name columns) catalog = catalog.create name (columns.map view)
  exec_dropTable : ∀ name catalog, exec (.dropTable name) catalog = catalog.drop name
  exec_renameTable : ∀ old new catalog,
    exec (.renameTable old new) catalog =
      (catalog.move old new).map (Catalog.mapColumns (follow old new))
  exec_copyRows : ∀ target copies source catalog, (catalog target).isSome = true →
    (catalog source).isSome = true → exec (.copyRows target copies source) catalog = some catalog

namespace TableSemantics

variable {β : Type} (semantics : TableSemantics β)

def execAll (statements : List Statement) (catalog : Catalog β) : Option (Catalog β) :=
  statements.foldlM (fun catalog statement => semantics.exec statement catalog) catalog

@[simp]
theorem execAll_nil (catalog : Catalog β) : semantics.execAll [] catalog = some catalog := rfl

@[simp]
theorem execAll_cons (first : Statement) (rest : List Statement) (catalog : Catalog β) :
    semantics.execAll (first :: rest) catalog =
      (semantics.exec first catalog).bind (semantics.execAll rest) := rfl

/-- A schema as it is viewed. -/
def seen (schema : Schema) : Catalog β := schema.mapColumns semantics.view

theorem seen_set (schema : Schema) (table : String) (columns : Option (List Column)) :
    semantics.seen (schema.set table columns) =
      (semantics.seen schema).set table (columns.map (List.map semantics.view)) :=
  Catalog.mapColumns_set _ _ _ _

theorem seen_eq_none {schema : Schema} {table : String} (hfree : schema table = none) :
    semantics.seen schema table = none := by
  rw [seen, Catalog.mapColumns, hfree, Option.map_none]

theorem isSome_seen (schema : Schema) (table : String) :
    (semantics.seen schema table).isSome = (schema table).isSome :=
  Catalog.isSome_mapColumns _ _ _

theorem mapColumns_follow (old new : String) (schema : Schema) :
    (semantics.seen schema).mapColumns (semantics.follow old new) =
      semantics.seen (schema.mapColumns (Column.retarget old new)) := by
  rw [seen, seen, Catalog.mapColumns_mapColumns, Catalog.mapColumns_mapColumns]
  exact congrArg (Catalog.mapColumns · schema) (funext (semantics.follow_view old new))

/-! ## Creating and dropping -/

section Plans

variable {planner : Planner} {registry next : Registry} {source : String} {batch : BatchPlan}

/-- Creating a table under a name that the registry starts to track. -/
theorem exec_fresh {columns : List Column} (hfree : registry.contains source = false)
    (hinsert : registry.insert (Table.fresh source columns) = .ok next) :
    semantics.exec (.createTable source columns) (semantics.seen registry.schema) =
      some (semantics.seen next.schema) := by
  have hseen := semantics.seen_eq_none (Registry.schema_eq_none hfree)
  rw [semantics.exec_createTable, Catalog.create_of_eq_none hseen,
    Registry.schema_insert_fresh hinsert, seen_set, Option.map_some]

/-- Dropping a table that the registry stops to track. -/
theorem exec_removed (hremove : registry.remove source = .ok next) :
    semantics.exec (.dropTable source) (semantics.seen registry.schema) =
      some (semantics.seen next.schema) := by
  have hheld : (semantics.seen registry.schema source).isSome = true := by
    rw [isSome_seen, Registry.isSome_schema, (Registry.contains_of_remove hremove).1]
  rw [semantics.exec_dropTable, Catalog.drop_of_isSome hheld, Registry.schema_remove hremove,
    seen_set, Option.map_none]

theorem execAll_planCreation {columns : List Column}
    (hplan : planner.planCreation registry source columns = .ok (next, batch)) :
    semantics.execAll batch.statements (semantics.seen registry.schema) =
      some (semantics.seen next.schema) := by
  obtain ⟨-, freed, hinsert, hfreed⟩ := Planner.planCreation_cases hplan
  rcases hfreed with ⟨hfree, rfl, rfl⟩ | ⟨-, hremove, rfl⟩
  · rw [execAll_cons, semantics.exec_fresh hfree hinsert]
    rfl
  · have hfree := (Registry.contains_of_remove hremove).2
    rw [execAll_cons, semantics.exec_removed hremove, Option.bind_some, execAll_cons,
      semantics.exec_fresh hfree hinsert]
    rfl

theorem execAll_planDrop (hplan : Planner.planDrop registry source = .ok (next, batch)) :
    semantics.execAll batch.statements (semantics.seen registry.schema) =
      some (semantics.seen next.schema) := by
  obtain ⟨hremove, rfl⟩ := Planner.planDrop_cases hplan
  rw [execAll_cons, semantics.exec_removed hremove]
  rfl

end Plans

/-! ## Rebuilding -/

section Rebuilds

variable {schema : Schema} {source : String} {target : Table}

/-- A rebuild puts the new shape of a table into the place of the stored one, if
no table has the scratch name. -/
theorem execAll_rebuild (hsource : (schema source).isSome = true)
    (hfree : target.name = source ∨ schema target.name = none)
    (hscratch : schema target.scratchName = none) :
    semantics.execAll (target.rebuild source) (semantics.seen schema) =
      some (semantics.seen (schema.rebuilt source target)) := by
  have hother : source ≠ target.scratchName := by
    rintro rfl
    simp [hscratch] at hsource
  obtain ⟨created, hcreated⟩ :
      ∃ created, created = schema.set target.scratchName (some target.columns) := ⟨_, rfl⟩
  have hcreate : semantics.exec (.createTable target.scratchName target.columns)
      (semantics.seen schema) = some (semantics.seen created) := by
    rw [semantics.exec_createTable, Catalog.create_of_eq_none (semantics.seen_eq_none hscratch),
      hcreated, seen_set, Option.map_some]
  have hheld : (semantics.seen created source).isSome = true := by
    rwa [isSome_seen, hcreated, Catalog.set_of_ne _ _ hother]
  have hcopy : semantics.exec (.copyRows target.scratchName target.copies source)
      (semantics.seen created) = some (semantics.seen created) := by
    refine semantics.exec_copyRows _ _ _ _ ?_ hheld
    rw [isSome_seen, hcreated, Catalog.set_self, Option.isSome_some]
  have hdrop : semantics.exec (.dropTable source) (semantics.seen created) =
      some (semantics.seen (created.set source none)) := by
    rw [semantics.exec_dropTable, Catalog.drop_of_isSome hheld, seen_set, Option.map_none]
  have hmove : semantics.exec (.renameTable target.scratchName target.name)
      (semantics.seen (created.set source none)) =
        some (semantics.seen (schema.rebuilt source target)) := by
    have hspare := Catalog.move_spare hscratch hother target.scratchName_ne.symm hfree
      target.columns
    rw [← hcreated] at hspare
    rw [semantics.exec_renameTable, seen, Catalog.move_mapColumns, hspare, Option.map_some,
      Option.map_some, Schema.rebuilt, ← semantics.mapColumns_follow]
    rfl
  calc semantics.execAll (target.rebuild source) (semantics.seen schema)
      = semantics.exec (.renameTable target.scratchName target.name)
          (semantics.seen (created.set source none)) := by
        rw [Table.rebuild, execAll_cons, hcreate, Option.bind_some, execAll_cons, hcopy,
          Option.bind_some, execAll_cons, hdrop, Option.bind_some, execAll_cons]
        exact Option.bind_fun_some _
    _ = some (semantics.seen (schema.rebuilt source target)) := hmove

/-- The same for a rebuild that is planned for a tracked table. -/
theorem execAll_planned {registry : Registry} {stored : Table} {actions : List Action}
    (halters : Segment.Alters actions) (hfind : registry.find? source = some stored)
    (happly : registry.applyAll stored actions = .ok target)
    (hscratch : registry.contains target.scratchName = false) :
    semantics.execAll (target.rebuild source) (semantics.seen registry.schema) =
      some (semantics.seen (registry.schema.rebuilt source target)) := by
  have hsource : (registry.schema source).isSome = true := by
    rw [Registry.isSome_schema, Registry.contains_of_find? hfind]
  have hfree : target.name = source ∨ registry.schema target.name = none :=
    (Registry.name_of_applyAll halters hfind happly).imp_right Registry.schema_eq_none
  exact semantics.execAll_rebuild hsource hfree (Registry.schema_eq_none hscratch)

section Unreferenced

variable
  (hview : ∀ old new column,
    semantics.view (Column.retarget old new column) = semantics.view column)
include hview

theorem seen_retarget (old new : String) (schema : Schema) :
    semantics.seen (schema.mapColumns (Column.retarget old new)) = semantics.seen schema := by
  rw [seen, Catalog.mapColumns_mapColumns]
  exact congrArg (Catalog.mapColumns · schema) (funext (hview old new))

/-- Where references are not kept, a table takes the place of another as it is. -/
theorem seen_place (schema : Schema) (source : String) (target : Table) :
    semantics.seen (schema.place source target) =
      ((semantics.seen schema).set source none).set target.name
        (some (target.columns.map semantics.view)) := by
  rw [Schema.place]
  split
  next hsame => rw [hsame, Catalog.set_set, seen_set, Option.map_some]
  · rw [seen_set, semantics.seen_retarget hview, seen_set, Option.map_none, Option.map_some]

theorem seen_rebuilt (schema : Schema) (source : String) (target : Table) :
    semantics.seen (schema.rebuilt source target) =
      semantics.seen (schema.place source target) := by
  rw [Schema.rebuilt, semantics.seen_retarget hview, semantics.seen_place hview, seen_set,
    seen_set, Option.map_none, Option.map_some]

end Unreferenced

end Rebuilds

end TableSemantics

/-- A semantics in which statements that alter a table in place change its columns by
their names. -/
structure ColumnSemantics (β : Type) [Named β] extends TableSemantics β where
  hom : Columns.Hom view
  exec_addColumn : ∀ table column catalog,
    exec (.addColumn table column) catalog = catalog.alter table (Columns.add (view column))
  exec_dropColumn : ∀ table name catalog,
    exec (.dropColumn table name) catalog = catalog.alter table (Columns.drop name)
  exec_renameColumn : ∀ table old new catalog,
    exec (.renameColumn table old new) catalog = catalog.alter table (Columns.rename old new)

namespace ColumnSemantics

variable {β : Type} [Named β] (semantics : ColumnSemantics β) {planner : Planner}
  {source : String}

/-- A statement that alters a table in place does to the database what its action
does to the schema. -/
theorem exec_direct (replace : Bool) {action : Action} {statement : Statement}
    (hdirect : planner.direct source action = .ok statement) (schema : Schema) :
    semantics.exec statement (semantics.seen schema) =
      (Schema.apply replace ⟨source, action⟩ schema).map semantics.seen := by
  have halter : ∀ action : Action, action.isColumnChange = true →
      ∀ change : List β → Option (List β),
        (∀ columns, change (columns.map semantics.view) =
          (action.onColumns columns).map (List.map semantics.view)) →
        (semantics.seen schema).alter source change =
          (Schema.apply replace ⟨source, action⟩ schema).map semantics.seen := by
    intro action hcolumn change hchange
    rw [Schema.apply_columnChange hcolumn]
    exact Catalog.alter_mapColumns hchange schema source
  cases Planner.writes_of_direct hdirect with
  | addColumn column params =>
      rw [semantics.exec_addColumn]
      exact halter (.addColumn column params) rfl _ fun columns =>
        semantics.hom.add_map column columns
  | dropColumn name =>
      rw [semantics.exec_dropColumn]
      exact halter (.dropColumn name) rfl _ fun columns => semantics.hom.drop_map name columns
  | renameColumn old new =>
      rw [semantics.exec_renameColumn]
      exact halter (.renameColumn old new) rfl _ fun columns =>
        semantics.hom.rename_map old new columns
  | renameTable new =>
      rw [semantics.exec_renameTable, TableSemantics.seen, Catalog.move_mapColumns, Schema.apply,
        Option.map_map, Option.map_map]
      exact congrArg (Option.map · (schema.move source new))
        (funext (semantics.mapColumns_follow source new))

theorem execAll_direct (replace : Bool) {actions : List Action} {statements : List Statement}
    (hdirect : actions.mapM (planner.direct source) = .ok statements) (schema : Schema) :
    semantics.execAll statements (semantics.seen schema) =
      (Schema.applyAll replace (actions.map (Declaration.mk source)) schema).map
        semantics.seen := by
  induction actions generalizing statements schema with
  | nil =>
      cases hdirect
      rfl
  | cons first rest ih =>
      obtain ⟨statement, others, hfirst, hrest, rfl⟩ := mapM_cons_eq_ok hdirect
      rw [TableSemantics.execAll_cons, semantics.exec_direct replace hfirst, List.map_cons,
        Schema.applyAll_cons, Option.bind_map, Option.map_bind]
      congr 1
      funext next
      exact ih hrest next

end ColumnSemantics

end SchemaMigration
