import SchemaMigration.Proofs.Execution
import SchemaMigration.Proofs.ReferenceOrder
import SchemaMigration.Proofs.Stages

/-!
# Scratch names

A rebuild creates its scratch table under a name that nothing reserves.  The tables
that may already have it are found among those tracked before the batch and the names
that the batch itself renames to.  The rebuild executes exactly if there is none.
-/

namespace SchemaMigration

namespace Schema

variable {replace : Bool} {schema next : Schema} {table name : String}

/-- Of the other tables an action brings only the one that it renames its own to. -/
theorem isSome_apply {action : Action} (hname : name ≠ table)
    (happly : apply replace ⟨table, action⟩ schema = some next) :
    (next name).isSome = true ↔ (schema name).isSome = true ∨ action = .renameTable name := by
  have hset : ∀ columns, (Catalog.set schema table columns) name = schema name :=
    fun columns => Catalog.set_of_ne schema columns hname
  by_cases hcolumn : action.isColumnChange = true
  · rw [apply_columnChange hcolumn] at happly
    obtain ⟨columns, changed, -, -, rfl⟩ := Catalog.alter_cases happly
    rw [hset]
    refine ⟨Or.inl, fun hsome => hsome.resolve_right ?_⟩
    rintro rfl
    cases hcolumn
  · cases action with
    | createTable columns =>
        rw [apply_createTable] at happly
        split at happly
        · cases happly
          simp [hset]
        · cases happly
    | dropTable =>
        rw [apply_dropTable] at happly
        split at happly
        · cases happly
          simp [hset]
        · cases happly
    | renameTable new =>
        obtain ⟨columns, -, rfl⟩ := exists_of_apply_renameTable happly
        rw [Catalog.isSome_mapColumns]
        by_cases hnew : name = new
        · subst hnew
          simp
        · rw [Catalog.set_of_ne _ _ hnew, hset]
          simp [Ne.symm hnew]
    | _ => exact absurd rfl hcolumn

/-- Of the other tables a batch brings those that it renames its own to. -/
theorem isSome_applyAll {actions : List Action} (hname : name ≠ table)
    (happly : applyAll replace (actions.map (Declaration.mk table)) schema = some next) :
    (next name).isSome = true ↔
      (schema name).isSome = true ∨ .renameTable name ∈ actions := by
  induction actions generalizing schema with
  | nil =>
      cases happly
      simp
  | cons action rest ih =>
      rw [List.map_cons, applyAll_cons] at happly
      obtain ⟨middle, hfirst, hrest⟩ := Option.bind_eq_some_iff.mp happly
      rw [ih hrest, isSome_apply hname hfirst, List.mem_cons, or_assoc,
        eq_comm (b := Action.renameTable name)]

end Schema

namespace Planner

variable {planner : Planner} {registry next : Registry} {source : String}
  {actions : List Action} {batch : BatchPlan}

/-- A rebuild that is emitted shows what its segment makes of the stored table. -/
theorem Emits.of_rebuild {segment : Segment} {statements : List Statement} {target : Table}
    (hemits : planner.Emits source registry segment statements next)
    (hstatements : statements = target.rebuild source) :
    ∃ stored changes found, segment = .alter changes ∧ registry.find? source = some stored ∧
      registry.applyAll stored changes = .ok found ∧ found.name = target.name ∧
        found.columns = target.columns := by
  cases hemits with
  | rebuild htracked happlied hforced hreplaced =>
      simp only [Table.rebuild, List.cons.injEq, Statement.createTable.injEq,
        Statement.renameTable.injEq] at hstatements
      exact ⟨_, _, _, rfl, htracked, happlied, hstatements.2.2.2.1.2, hstatements.1.2⟩
  | inPlace htracked happlied hunforced hwritten hreplaced =>
      rw [hstatements, Table.rebuild] at hwritten
      cases hwritten with
      | cons hfirst hothers => cases hfirst.writes
  | create hdistinct hfree hinserted => cases hstatements
  | recreate hdistinct htaken hreplaces hremoved hinserted => cases hstatements
  | drop hremoved => cases hstatements

/-- A rebuild whose scratch name is free puts the new shape of the table into the place of
the stored one. -/
theorem Emits.execAll_rebuild {segment : Segment} {statements : List Statement} {target : Table}
    (hwell : segment.WellFormed)
    (hemits : planner.Emits source registry segment statements next)
    (hstatements : statements = target.rebuild source)
    (hfree : registry.contains target.scratchName = false) :
    Statement.execAll statements registry.schema.stored =
      some ((registry.schema.stored.set source none).set target.name
        (some (target.columns.map StoredColumn.ofColumn))) := by
  obtain ⟨stored, changes, found, rfl, htracked, happlied, hname, -⟩ :=
    hemits.of_rebuild hstatements
  have hsource : (registry.schema source).isSome = true := by
    rw [Registry.isSome_schema, Registry.contains_of_find? htracked]
  have hplace := (Registry.name_of_applyAll hwell htracked happlied).imp_right
    Registry.schema_eq_none
  rw [hname] at hplace
  have hexec := StoredColumn.semantics.execAll_rebuild hsource hplace
    (Registry.schema_eq_none hfree)
  rw [StoredColumn.semantics.seen_rebuilt StoredColumn.ofColumn_retarget,
    StoredColumn.semantics.seen_place StoredColumn.ofColumn_retarget] at hexec
  rw [hstatements]
  exact hexec

theorem exec_createTable_eq_none_iff (registry : Registry) (name : String)
    (columns : List Column) :
    (Statement.createTable name columns).exec registry.schema.stored = none ↔
      registry.contains name = true := by
  have hheld : (registry.schema.stored name).isSome = registry.contains name := by
    rw [Schema.stored, Catalog.isSome_mapColumns, Registry.isSome_schema]
  rw [Statement.exec, Catalog.create, hheld]
  split
  next htaken => exact iff_of_true rfl htaken
  next hfree => exact iff_of_false (Option.some_ne_none _) hfree

/-- Of the tables other than its own a batch brings those that it renames its own to. -/
theorem Passes.contains_iff {stages : List Stage}
    (hwell : ∀ stage ∈ stages, stage.segment.WellFormed)
    (hpasses : planner.Passes source registry stages next) {name : String}
    (hname : name ≠ source) :
    next.contains name = true ↔ registry.contains name = true ∨
      .renameTable name ∈ stages.flatMap fun stage => stage.segment.actions := by
  rw [← Registry.isSome_schema, ← Registry.isSome_schema]
  exact Schema.isSome_applyAll hname (hpasses.schema_eq hwell)

/-- A rebuild of a batch finds its scratch name taken by the very table that it rebuilds,
by a table that was tracked before the batch, or by one that the batch has renamed.
Exactly then its scratch table cannot be created.  Otherwise the rebuild executes, and it
changes nothing but that the new shape of the table stands in the place of the stored
one. -/
theorem contains_scratchName_iff
    (hplan : planner.plan registry source actions = .ok (next, batch)) :
    ∃ stages : List Stage, Segment.IsCut actions (stages.map Stage.segment) ∧
      planner.Passes source registry stages next ∧
      batch.statements = stages.flatMap Stage.statements ∧
      ∀ (earlier : List Stage) (stage : Stage) (later : List Stage) (target : Table),
        stages = earlier ++ stage :: later → stage.statements = target.rebuild source →
          (stage.registry.contains target.scratchName = true ↔
            target.scratchName = source ∨ registry.contains target.scratchName = true ∨
              .renameTable target.scratchName ∈
                earlier.flatMap fun stage => stage.segment.actions) ∧
          ((Statement.createTable target.scratchName target.columns).exec
              stage.registry.schema.stored = none ↔
            stage.registry.contains target.scratchName = true) ∧
          (stage.registry.contains target.scratchName = false →
            Statement.execAll stage.statements stage.registry.schema.stored =
              some ((stage.registry.schema.stored.set source none).set target.name
                (some (target.columns.map StoredColumn.ofColumn)))) := by
  obtain ⟨stages, hcut, hpasses, hstatements, -⟩ := stages_of_plan hplan
  refine ⟨stages, hcut, hpasses, hstatements, ?_⟩
  rintro earlier stage later target rfl hrebuild
  obtain ⟨middle, hearlier, hemits, -⟩ := hpasses.split
  have hwell : ∀ other ∈ earlier ++ stage :: later, other.segment.WellFormed :=
    fun other hmem => hcut.wellFormed _ (List.mem_map_of_mem hmem)
  obtain ⟨hbefore, hstage⟩ := List.forall_mem_append.mp hwell
  refine ⟨?_, exec_createTable_eq_none_iff _ _ _,
    hemits.execAll_rebuild (List.forall_mem_cons.mp hstage).1 hrebuild⟩
  by_cases hsource : target.scratchName = source
  · obtain ⟨stored, -, -, -, htracked, -⟩ := hemits.of_rebuild hrebuild
    rw [hsource]
    exact iff_of_true (Registry.contains_of_find? htracked) (Or.inl rfl)
  · rw [hearlier.contains_iff hbefore hsource, or_iff_right hsource]

/-- A run that tracks a table under the scratch name of another. -/
def crowded : List Command :=
  [.start,
    .enqueue "people" (.createTable [{ name := "name", type := .text }]),
    .enqueue "people_tmp" (.createTable [{ name := "name", type := .text }]),
    .flush]

/-- The other table with its column redefined. -/
def redefined : Table :=
  .fresh "people" [{ name := "name", type := .text, notNull := true }]

/-- The scratch table of the rebuild cannot be created. -/
theorem exec_scratch_redefined :
    ∃ next batch, Planner.plan ⟨"sqlite", ⟨true, true, true⟩, false⟩
        ((Compilation.new {}).run crowded).registry "people"
        [.changeColumn "name" redefined.columns.head? none] = .ok (next, batch) ∧
      batch.statements = redefined.rebuild "people" ∧
      ((Compilation.new {}).run crowded).registry.contains redefined.scratchName = true ∧
      (Statement.createTable redefined.scratchName redefined.columns).exec
        ((Compilation.new {}).run crowded).registry.schema.stored = none := by
  have hplanned : (Planner.plan ⟨"sqlite", ⟨true, true, true⟩, false⟩
      ((Compilation.new {}).run crowded).registry "people"
      [.changeColumn "name" redefined.columns.head? none]).toOption.map
        (fun planned => planned.2.statements) = some (redefined.rebuild "people") := by decide
  have htracked : ((Compilation.new {}).run crowded).registry.contains
      redefined.scratchName = true := by decide
  obtain ⟨⟨next, batch⟩, hresult, hrebuild⟩ := Option.map_eq_some_iff.mp hplanned
  have hplan := toOption_eq_some_iff.mp hresult
  obtain ⟨stages, hcut, hpasses, hstatements, hscratch⟩ := contains_scratchName_iff hplan
  obtain ⟨stage, rfl, -⟩ := List.map_eq_singleton_iff.mp (Segment.isCut_iff.mp hcut)
  rw [List.flatMap_singleton] at hstatements
  obtain ⟨htaken, hexec, -⟩ := hscratch [] stage [] redefined rfl (hstatements.symm.trans hrebuild)
  cases hpasses with
  | cons hemits hlater =>
      exact ⟨next, batch, hplan, hrebuild, htracked, hexec.mpr (htaken.mpr (.inr (.inl htracked)))⟩

end Planner

/-! ## Runs that keep the names apart -/

/-- The table names that an action brings when it is declared for `table`. -/
def Action.brings (table : String) : Action → List String
  | createTable _ => [table]
  | renameTable new => [new]
  | dropTable | addColumn _ _ | changeColumn _ _ _ | dropColumn _ | renameColumn _ _ => []

/-- The table names that a command brings. -/
def Command.brings : Command → List String
  | enqueue table action => action.brings table
  | start | sql _ _ | script _ | asyncScript _ | flush | steps _ | rowTypes => []

namespace Planner

variable {planner : Planner} {registry next : Registry} {source : String}

/-- The tables that are tracked after a segment were tracked before it or are brought. -/
theorem Emits.contains_or_brings {segment : Segment} {statements : List Statement}
    (hwell : segment.WellFormed)
    (hemits : planner.Emits source registry segment statements next) {name : String}
    (hcontains : next.contains name = true) :
    registry.contains name = true ∨ ∃ action ∈ segment.actions, name ∈ action.brings source := by
  by_cases hname : name = source
  · subst hname
    cases hemits with
    | rebuild htracked _ _ _ => exact Or.inl (Registry.contains_of_find? htracked)
    | inPlace htracked _ _ _ _ => exact Or.inl (Registry.contains_of_find? htracked)
    | create _ _ _ =>
        exact Or.inr ⟨_, List.mem_singleton.mpr rfl, List.mem_singleton.mpr rfl⟩
    | recreate _ _ _ _ _ =>
        exact Or.inr ⟨_, List.mem_singleton.mpr rfl, List.mem_singleton.mpr rfl⟩
    | drop hremoved =>
        rw [(Registry.contains_of_remove hremoved).2] at hcontains
        cases hcontains
  · rw [← Registry.isSome_schema] at hcontains ⊢
    refine ((Schema.isSome_applyAll hname (hemits.schema_eq hwell)).mp hcontains).imp_right ?_
    exact fun hrenamed => ⟨_, hrenamed, List.mem_singleton.mpr rfl⟩

/-- Where no name that is brought is another with the suffix of scratch names, every
rebuild finds its scratch name free. -/
theorem restsOn_scratchFree {names : List String}
    (hapart : ∀ name ∈ names, name ++ "_tmp" ∉ names) :
    SegmentCheck.RestsOn scratchFree
      (fun registry => ∀ name, registry.contains name = true → name ∈ names)
      (fun declaration => ∀ name ∈ declaration.action.brings declaration.table, name ∈ names) where
  met := by
    intro planner registry table segment hwell hallowed hholds
    cases segment with
    | create columns => rfl
    | drop => rfl
    | alter actions =>
        rw [scratchFree, SegmentCheck.ofAlteration]
        split
        · rfl
        next stored htracked =>
          split
          · rfl
          next target happlied =>
            obtain ⟨-, changes, new, rfl, hchanges⟩ := hwell
            obtain ⟨hname, -⟩ := Registry.name_of_applyAll_renaming hchanges htracked happlied
            have htarget : target.name ∈ names := by
              rw [hname]
              cases new with
              | none => exact hholds table (Registry.contains_of_find? htracked)
              | some new =>
                  refine hallowed (.renameTable new) ?_ new (List.mem_singleton.mpr rfl)
                  exact List.mem_append_right changes (List.mem_singleton.mpr rfl)
            have hunused : ¬registry.contains target.scratchName = true :=
              fun htaken => hapart target.name htarget (hholds _ htaken)
            simp [hunused]
  kept := by
    intro planner registry next table segment batch hwell hallowed hplan hholds name hcontains
    rcases (emits_of_planSegment hplan).1.contains_or_brings hwell hcontains with
      htracked | ⟨action, hmem, hbrings⟩
    · exact hholds name htracked
    · exact hallowed action hmem name hbrings

end Planner

namespace Compilation

/-- A run finds every scratch name free if no table name that its commands bring is
another one with the suffix of scratch names. -/
theorem scratchFreeRun_of_apart (settings : Settings) (commands : List Command)
    (hapart : ∀ name ∈ commands.flatMap Command.brings,
      name ++ "_tmp" ∉ commands.flatMap Command.brings) :
    (new settings).scratchFreeRun commands = true := by
  refine (Planner.restsOn_scratchFree hapart).onRun ?_ ?_ fun table action hmem name hname => ?_
  · intro name hcontains
    cases hcontains
  · exact fun batch hmem => absurd hmem List.not_mem_nil
  · exact List.mem_flatMap.mpr ⟨_, hmem, hname⟩

end Compilation

end SchemaMigration
