import SchemaMigration.Compilation
import SchemaMigration.Proofs.Alteration
import SchemaMigration.Proofs.QueueOrder

/-!
# Planning a batch

Planning the actions of a table succeeds exactly when they can be applied one at
a time to the schema that the registry tracks, and leaves the registry with the
schema that this gives.
-/

namespace SchemaMigration

namespace Table

theorem firstRepeated?_eq_none_iff (seen : List String) (columns : List Column) :
    firstRepeated? seen columns = none ↔
      (Columns.names columns).Nodup ∧ ∀ name ∈ Columns.names columns, name ∉ seen := by
  induction columns generalizing seen with
  | nil => simp [firstRepeated?, Columns.names]
  | cons column rest ih =>
      have hnames : Columns.names (column :: rest) = column.name :: Columns.names rest := rfl
      rw [firstRepeated?, hnames, List.nodup_cons, List.forall_mem_cons]
      by_cases hseen : column.name ∈ seen
      · simp [hseen]
      · rw [if_neg hseen, ih]
        simp only [List.mem_cons, not_or]
        grind

/-- The table of the given columns, none of them pending a copy. -/
def fresh (name : String) (columns : List Column) : Table where
  name := name
  entries := columns.map fun column => { column }

theorem columns_fresh (name : String) (columns : List Column) :
    (fresh name columns).columns = columns := by
  simp [fresh, Table.columns, Function.comp_def]

/-- Columns make a table when their names differ. -/
theorem ofColumns_eq_ok_iff {name : String} {columns : List Column} {table : Table} :
    ofColumns name columns = .ok table ↔
      (Columns.names columns).Nodup ∧ table = fresh name columns := by
  have hnodup := firstRepeated?_eq_none_iff [] columns
  rw [ofColumns]
  split
  next column hrepeated =>
    rw [hrepeated] at hnodup
    simp at hnodup
    simp [hnodup]
  next hnone =>
    have hdistinct := (hnodup.mp hnone).1
    simp [hdistinct, fresh, eq_comm]

theorem columns_settle (table : Table) : table.settle.columns = table.columns := by
  simp [settle, Table.columns, Function.comp_def]

theorem columns_forgetParams (table : Table) : table.forgetParams.columns = table.columns := by
  simp [forgetParams, Table.columns, Function.comp_def]

end Table

namespace Registry

variable {registry : Registry} {name : String}

theorem exists_insert {table : Table} (hfree : registry.contains table.name = false) :
    ∃ next, registry.insert table = .ok next :=
  ⟨_, by rw [insert, if_neg (by simp [hfree])]⟩

theorem exists_remove (hcontains : registry.contains name = true) :
    ∃ next, registry.remove name = .ok next :=
  ⟨_, by rw [remove, if_pos hcontains]⟩

theorem schema_insert_fresh {next : Registry} {columns : List Column}
    (hinsert : registry.insert (Table.fresh name columns) = .ok next) :
    next.schema = registry.schema.set name (some columns) := by
  rw [schema_insert hinsert, Table.columns_fresh]
  rfl

theorem contains_of_remove {next : Registry} (hremove : registry.remove name = .ok next) :
    registry.contains name = true ∧ next.contains name = false := by
  have hnext : next.contains name = false := by
    rw [← isSome_schema, schema_remove hremove, Catalog.set_self]
    rfl
  rw [remove] at hremove
  split at hremove
  next hcontains => exact ⟨hcontains, hnext⟩
  · cases hremove

end Registry

namespace Planner

variable {planner : Planner} {registry next : Registry} {source : String}
  {columns : List Column} {actions : List Action} {batch : BatchPlan}

/-! ## Creating and dropping -/

/-- A table is created under a name that is free, or freed first. -/
theorem planCreation_cases
    (hplan : planner.planCreation registry source columns = .ok (next, batch)) :
    (Columns.names columns).Nodup ∧ ∃ freed,
      freed.insert (Table.fresh source columns) = .ok next ∧
        ((registry.contains source = false ∧ freed = registry ∧
            batch = ⟨source, [.createTable source columns], 0⟩) ∨
          (planner.replaceExisting = true ∧ registry.remove source = .ok freed ∧
            batch = ⟨source, [.dropTable source, .createTable source columns], 0⟩)) := by
  rw [planCreation] at hplan
  obtain ⟨table, htable, hplan⟩ := bind_eq_ok_iff.mp hplan
  obtain ⟨hdistinct, rfl⟩ := Table.ofColumns_eq_ok_iff.mp htable
  refine ⟨hdistinct, ?_⟩
  split at hplan
  · split at hplan
    next hreplace =>
      obtain ⟨freed, hremove, hplan⟩ := bind_eq_ok_iff.mp hplan
      obtain ⟨result, hinsert, hplan⟩ := bind_eq_ok_iff.mp hplan
      cases hplan
      exact ⟨freed, hinsert, Or.inr ⟨hreplace, hremove, rfl⟩⟩
    · cases hplan
  next hfree =>
    obtain ⟨result, hinsert, hplan⟩ := bind_eq_ok_iff.mp hplan
    cases hplan
    exact ⟨registry, hinsert, Or.inl ⟨by simpa using hfree, rfl, rfl⟩⟩

theorem exists_planCreation (planner : Planner) (hdistinct : (Columns.names columns).Nodup)
    (hfree : registry.contains source = false ∨ planner.replaceExisting = true) :
    ∃ planned, planner.planCreation registry source columns = .ok planned := by
  rw [planCreation]
  rw [Table.ofColumns_eq_ok_iff.mpr ⟨hdistinct, rfl⟩]
  by_cases hcontains : registry.contains source = true
  · have hreplace : planner.replaceExisting = true :=
      hfree.resolve_left (by simp [hcontains])
    obtain ⟨freed, hremove⟩ := Registry.exists_remove hcontains
    have hfreed : freed.contains (Table.fresh source columns).name = false :=
      (Registry.contains_of_remove hremove).2
    obtain ⟨result, hinsert⟩ := Registry.exists_insert hfreed
    exact ⟨_, by simp [hcontains, hreplace, hremove, hinsert, bind, Except.bind]; rfl⟩
  · have hfree : registry.contains (Table.fresh source columns).name = false := by
      change registry.contains source = false
      simpa using hcontains
    obtain ⟨result, hinsert⟩ := Registry.exists_insert hfree
    exact ⟨_, by simp [hcontains, hinsert, bind, Except.bind]; rfl⟩

theorem planDrop_cases (hplan : planDrop registry source = .ok (next, batch)) :
    registry.remove source = .ok next ∧ batch = ⟨source, [.dropTable source], 0⟩ := by
  rw [planDrop] at hplan
  obtain ⟨result, hremove, hplan⟩ := bind_eq_ok_iff.mp hplan
  cases hplan
  exact ⟨hremove, rfl⟩

theorem exists_planDrop (hcontains : registry.contains source = true) :
    ∃ planned, planDrop registry source = .ok planned := by
  obtain ⟨freed, hremove⟩ := Registry.exists_remove hcontains
  exact ⟨_, by simp [planDrop, hremove, bind, Except.bind]; rfl⟩

/-! ## Altering -/

/-- The statement that does in place what an action asks of the table called `source`. -/
inductive Writes (source : String) : Statement → Action → Prop
  | addColumn (column : Column) (params : Option CopyParams) :
      Writes source (.addColumn source column) (.addColumn column params)
  | dropColumn (name : String) : Writes source (.dropColumn source name) (.dropColumn name)
  | renameColumn (old new : String) :
      Writes source (.renameColumn source old new) (.renameColumn old new)
  | renameTable (new : String) : Writes source (.renameTable source new) (.renameTable new)

theorem writes_of_direct {action : Action} {statement : Statement}
    (hdirect : planner.direct source action = .ok statement) :
    Writes source statement action := by
  cases action <;> rw [direct] at hdirect <;> try split at hdirect
  all_goals cases hdirect
  all_goals constructor

/-- An action that needs no rebuild has a statement of its own. -/
theorem exists_direct {table : Table} {action : Action}
    (hterminal : action.isTerminal = false)
    (hforced : planner.forcesRebuild table action = false) (name : String) :
    ∃ statement, planner.direct name action = .ok statement := by
  cases action <;> simp_all [Action.isTerminal, forcesRebuild, direct]

theorem exists_mapM_direct {table target : Table}
    (hterminal : ∀ action ∈ actions, action.isTerminal = false)
    (happly : registry.applyAll table actions = .ok target)
    (hforced : planner.needsRebuild registry table actions = false) (name : String) :
    ∃ statements, actions.mapM (planner.direct name) = .ok statements := by
  induction actions generalizing table with
  | nil => exact ⟨[], rfl⟩
  | cons action rest ih =>
      rw [List.forall_mem_cons] at hterminal
      obtain ⟨middle, hmiddle, hrest⟩ := bind_eq_ok_iff.mp happly
      rw [needsRebuild, firstForced?] at hforced
      split at hforced
      · cases hforced
      next hfirst =>
        rw [hmiddle] at hforced
        obtain ⟨first, hfirst⟩ := exists_direct hterminal.1 (by simpa using hfirst) name
        obtain ⟨others, hothers⟩ := ih hterminal.2 hrest hforced
        exact ⟨first :: others, by simp [hfirst, hothers, bind, Except.bind]; rfl⟩

/-- An alteration resolves its actions on a copy of the stored table and is written
as one rebuild, which uses up the copy parameters, or action by action. -/
theorem planAlteration_ok
    (hplan : planner.planAlteration registry source actions = .ok (next, batch)) :
    ∃ stored target,
      registry.find? source = some stored ∧ registry.applyAll stored actions = .ok target ∧
        (planner.needsRebuild registry stored actions = true ∧
            registry.replace source target.forgetParams.settle = .ok next ∧
            batch = ⟨target.name, target.rebuild source, 1⟩ ∨
          planner.needsRebuild registry stored actions = false ∧
            registry.replace source target.settle = .ok next ∧
            ∃ statements, actions.mapM (planner.direct source) = .ok statements ∧
              batch = ⟨target.name, statements, 0⟩) := by
  rw [planAlteration] at hplan
  split at hplan
  · cases hplan
  next stored hfind =>
    obtain ⟨target, happly, hplan⟩ := bind_eq_ok_iff.mp hplan
    split at hplan
    next hrebuild =>
      obtain ⟨result, hreplace, hplan⟩ := bind_eq_ok_iff.mp hplan
      cases hplan
      exact ⟨stored, target, hfind, happly, Or.inl ⟨hrebuild, hreplace, rfl⟩⟩
    next hdirect =>
      obtain ⟨statements, hstatements, hplan⟩ := bind_eq_ok_iff.mp hplan
      obtain ⟨result, hreplace, hplan⟩ := bind_eq_ok_iff.mp hplan
      cases hplan
      exact ⟨stored, target, hfind, happly,
        Or.inr ⟨by simpa using hdirect, hreplace, statements, hstatements, rfl⟩⟩

/-- Putting the altered table into the place of the stored one. -/
theorem schema_replace {placed : Table} (hreplace : registry.replace source placed = .ok next) :
    next.schema = registry.schema.place source placed := by
  rw [Schema.place]
  split
  next hsame => exact Registry.schema_replace_self hsame hreplace
  next hmoved => exact Registry.schema_replace_of_ne hmoved hreplace

/-- In either case the outcome takes the place of the stored table. -/
theorem planAlteration_cases
    (hplan : planner.planAlteration registry source actions = .ok (next, batch)) :
    ∃ stored target,
      registry.find? source = some stored ∧ registry.applyAll stored actions = .ok target ∧
        (∃ placed, registry.replace source placed = .ok next) ∧
        next.schema = registry.schema.place source target ∧
        (planner.needsRebuild registry stored actions = true ∧
            batch = ⟨target.name, target.rebuild source, 1⟩ ∨
          planner.needsRebuild registry stored actions = false ∧
            ∃ statements, actions.mapM (planner.direct source) = .ok statements ∧
              batch = ⟨target.name, statements, 0⟩) := by
  obtain ⟨stored, target, hfind, happly, houtcome⟩ := planAlteration_ok hplan
  have hplace : ∀ placed : Table, placed.name = target.name → placed.columns = target.columns →
      registry.replace source placed = .ok next →
        next.schema = registry.schema.place source target := by
    intro placed hname hcolumns hreplace
    rw [schema_replace hreplace, Schema.place, Schema.place, hname, hcolumns]
  refine ⟨stored, target, hfind, happly, ?_⟩
  rcases houtcome with ⟨hrebuild, hreplace, hbatch⟩ | ⟨hdirect, hreplace, hstatements⟩
  · have hcolumns : target.forgetParams.settle.columns = target.columns := by
      rw [Table.columns_settle, Table.columns_forgetParams]
    exact ⟨⟨_, hreplace⟩, hplace target.forgetParams.settle rfl hcolumns hreplace,
      Or.inl ⟨hrebuild, hbatch⟩⟩
  · exact ⟨⟨_, hreplace⟩, hplace target.settle rfl (Table.columns_settle target) hreplace,
      Or.inr ⟨hdirect, hstatements⟩⟩

theorem exists_planAlteration (planner : Planner) {stored target : Table}
    (halters : Segment.Alters actions) (hfind : registry.find? source = some stored)
    (happly : registry.applyAll stored actions = .ok target) :
    ∃ planned, planner.planAlteration registry source actions = .ok planned := by
  have hfree := Registry.name_of_applyAll halters hfind happly
  have hreplace : ∀ table : Table, table.name = target.name →
      ∃ next, registry.replace source table = .ok next := by
    intro table hname
    rw [← hname] at hfree
    exact Registry.exists_replace (Registry.contains_of_find? hfind) hfree
  rw [planAlteration]
  rw [hfind]
  by_cases hrebuild : planner.needsRebuild registry stored actions = true
  · obtain ⟨result, hresult⟩ := hreplace target.forgetParams.settle rfl
    exact ⟨_, by simp [happly, hrebuild, hresult, bind, Except.bind]; rfl⟩
  · obtain ⟨result, hresult⟩ := hreplace target.settle rfl
    obtain ⟨statements, hdirect⟩ := exists_mapM_direct (Segment.not_terminal_of_alters halters)
      happly (by simpa using hrebuild) source
    exact ⟨_, by simp [happly, hrebuild, hdirect, hresult, bind, Except.bind]; rfl⟩

/-! ## The schema after planning -/

/-- What a planned computation leaves in the registry, from what it does when it
succeeds and from when it does. -/
theorem toOption_map_schema {planned : Except MigrationError (Registry × BatchPlan)}
    {expected : Option Schema}
    (hsound : ∀ next batch, planned = .ok (next, batch) → expected = some next.schema)
    (hcomplete : ∀ schema, expected = some schema → ∃ result, planned = .ok result) :
    planned.toOption.map (fun result => result.1.schema) = expected := by
  cases hplanned : planned with
  | ok result => exact (hsound result.1 result.2 hplanned).symm
  | error error =>
      cases hexpected : expected with
      | none => rfl
      | some schema =>
          obtain ⟨result, hresult⟩ := hcomplete schema hexpected
          rw [hplanned] at hresult
          cases hresult

/-- A creation as a declaration. -/
theorem schema_planCreation (planner : Planner) (registry : Registry) (source : String)
    (columns : List Column) :
    (planner.planCreation registry source columns).toOption.map
        (fun planned => planned.1.schema) =
      Schema.apply planner.replaceExisting ⟨source, .createTable columns⟩ registry.schema := by
  rw [Schema.apply_createTable, Registry.isSome_schema]
  apply toOption_map_schema
  · intro next batch hplan
    obtain ⟨hdistinct, freed, hinsert, hfreed⟩ := planCreation_cases hplan
    have hschema := Registry.schema_insert_fresh hinsert
    rcases hfreed with ⟨hfree, rfl, -⟩ | ⟨hreplace, hremove, -⟩
    · rw [if_pos ⟨hdistinct, Or.inl hfree⟩, hschema]
    · rw [if_pos ⟨hdistinct, Or.inr hreplace⟩, hschema, Registry.schema_remove hremove,
        Catalog.set_set]
  · intro schema hschema
    split at hschema
    next hallowed => exact exists_planCreation planner hallowed.1 hallowed.2
    · cases hschema

/-- The end of a table as a declaration. -/
theorem schema_planDrop (replace : Bool) (registry : Registry) (source : String) :
    (planDrop registry source).toOption.map (fun planned => planned.1.schema) =
      Schema.apply replace ⟨source, .dropTable⟩ registry.schema := by
  rw [Schema.apply_dropTable, Registry.isSome_schema]
  apply toOption_map_schema
  · intro next batch hplan
    obtain ⟨hremove, -⟩ := planDrop_cases hplan
    rw [if_pos (Registry.contains_of_remove hremove).1, Registry.schema_remove hremove]
  · intro schema hschema
    split at hschema
    next hcontains => exact exists_planDrop hcontains
    · cases hschema

/-- An alteration as its actions declared one at a time. -/
theorem schema_planAlteration (planner : Planner) (halters : Segment.Alters actions)
    (registry : Registry) (source : String) :
    (planner.planAlteration registry source actions).toOption.map
        (fun planned => planned.1.schema) =
      Schema.applyAll planner.replaceExisting (actions.map (Declaration.mk source))
        registry.schema := by
  cases hfind : registry.find? source with
  | none =>
      obtain ⟨first, rest, rfl⟩ := List.exists_cons_of_ne_nil halters.1
      have hmissing : registry.schema source = none := by
        rw [Registry.schema, hfind, Option.map_none]
      have hterminal := Segment.not_terminal_of_alters halters first List.mem_cons_self
      rw [planAlteration, hfind, List.map_cons, Schema.applyAll_cons,
        Schema.apply_missing hterminal hmissing]
      rfl
  | some stored =>
      rw [← Registry.map_place_applyAll halters hfind]
      apply toOption_map_schema
      · intro next batch hplan
        obtain ⟨stored', target, hfind', happly, -, hplace, -⟩ := planAlteration_cases hplan
        rw [hfind] at hfind'
        cases hfind'
        rw [happly, hplace]
        rfl
      · intro schema hschema
        obtain ⟨target, htarget, -⟩ := Option.map_eq_some_iff.mp hschema
        exact exists_planAlteration planner halters hfind (toOption_eq_some_iff.mp htarget)

/-- A segment as its actions declared one at a time. -/
theorem schema_planSegment (planner : Planner) {segment : Segment} (hwell : segment.WellFormed)
    (registry : Registry) (table : String) :
    (planner.planSegment registry table segment).toOption.map (fun planned => planned.1.schema) =
      Schema.applyAll planner.replaceExisting (segment.actions.map (Declaration.mk table))
        registry.schema := by
  cases segment with
  | alter actions => exact schema_planAlteration planner hwell registry table
  | create columns =>
      rw [Segment.actions, List.map_singleton, Schema.applyAll_single]
      exact schema_planCreation planner registry table columns
  | drop =>
      rw [Segment.actions, List.map_singleton, Schema.applyAll_single]
      exact schema_planDrop planner.replaceExisting registry table

/-- Planning a segment and those behind it. -/
theorem planSegments_cons_eq_ok {segment : Segment} {rest : List Segment}
    {planned result : Registry × BatchPlan} :
    planner.planSegments source planned (segment :: rest) = .ok result ↔
      ∃ changed more, planner.planSegment planned.1 source segment = .ok (changed, more) ∧
        planner.planSegments source (changed, ⟨more.table,
          planned.2.statements ++ more.statements, planned.2.rebuilds + more.rebuilds⟩) rest =
            .ok result := by
  rw [planSegments, List.foldlM_cons, bind_eq_ok_iff]
  constructor
  · rintro ⟨middle, hstep, hrest⟩
    obtain ⟨⟨changed, more⟩, hsegment, hmiddle⟩ := bind_eq_ok_iff.mp hstep
    cases hmiddle
    exact ⟨changed, more, hsegment, hrest⟩
  · rintro ⟨changed, more, hsegment, hrest⟩
    exact ⟨_, bind_eq_ok_iff.mpr ⟨_, hsegment, rfl⟩, hrest⟩

/-- The actions of a batch declared one at a time. -/
theorem schema_plan (planner : Planner) (registry : Registry) (table : String)
    (actions : List Action) :
    (planner.plan registry table actions).toOption.map (fun planned => planned.1.schema) =
      Schema.applyAll planner.replaceExisting (actions.map (Declaration.mk table))
        registry.schema := by
  conv_rhs => rw [← Segment.flatMap_actions_cut actions, List.map_flatMap, Schema.applyAll_flatMap]
  refine toOption_foldlM (fun planned : Registry × BatchPlan => planned.1.schema)
    (fun planned segment hmem => ?_) (registry, ⟨table, [], 0⟩)
  rw [← schema_planSegment planner (Segment.wellFormed_cut actions segment hmem) planned.1 table,
    toOption_bind]
  cases planner.planSegment planned.1 table segment <;> rfl

/-! ## Distinct names -/

theorem distinct_planSegment {segment : Segment} (hdistinct : registry.Distinct)
    (hplan : planner.planSegment registry source segment = .ok (next, batch)) :
    next.Distinct := by
  cases segment with
  | alter actions =>
      obtain ⟨-, -, -, -, ⟨placed, hreplace⟩, -⟩ := planAlteration_cases hplan
      exact Registry.distinct_replace hdistinct hreplace
  | create columns =>
      obtain ⟨-, freed, hinsert, hfreed⟩ := planCreation_cases hplan
      rcases hfreed with ⟨-, rfl, -⟩ | ⟨-, hremove, -⟩
      · exact Registry.distinct_insert hdistinct hinsert
      · exact Registry.distinct_insert (Registry.distinct_remove hdistinct hremove) hinsert
  | drop => exact Registry.distinct_remove hdistinct (planDrop_cases hplan).1

theorem distinct_plan (hdistinct : registry.Distinct)
    (hplan : planner.plan registry source actions = .ok (next, batch)) : next.Distinct := by
  refine foldlM_preserves (fun planned : Registry × BatchPlan => planned.1.Distinct)
    (fun planned segment result hplanned hstep => ?_) hdistinct hplan
  obtain ⟨⟨changed, more⟩, hsegment, hresult⟩ := bind_eq_ok_iff.mp hstep
  cases hresult
  exact distinct_planSegment hplanned hsegment

end Planner

namespace Compilation

/-- Planning a batch and those behind it. -/
theorem planBatches_cons_eq_ok {planner : Planner} {batch : Batch} {rest : List Batch}
    {planned result : Registry × List Statement} :
    planBatches planner planned (batch :: rest) = .ok result ↔
      ∃ changed more, planner.plan planned.1 batch.table batch.actions = .ok (changed, more) ∧
        planBatches planner (changed, planned.2 ++ more.statements) rest = .ok result := by
  rw [planBatches, List.foldlM_cons, bind_eq_ok_iff]
  constructor
  · rintro ⟨middle, hstep, hrest⟩
    obtain ⟨⟨changed, more⟩, hbatch, hmiddle⟩ := bind_eq_ok_iff.mp hstep
    cases hmiddle
    exact ⟨changed, more, hbatch, hrest⟩
  · rintro ⟨changed, more, hbatch, hrest⟩
    exact ⟨_, bind_eq_ok_iff.mpr ⟨_, hbatch, rfl⟩, hrest⟩

/-- The batches of a queue as their declarations in the order in which they are
drained. -/
theorem schema_planBatches (planner : Planner) (batches : List Batch)
    (planned : Registry × List Statement) :
    (planBatches planner planned batches).toOption.map (fun planned => planned.1.schema) =
      Schema.applyAll planner.replaceExisting (batches.flatMap Batch.declarations)
        planned.1.schema := by
  rw [Schema.applyAll_flatMap]
  refine toOption_foldlM (fun planned : Registry × List Statement => planned.1.schema)
    (fun planned batch _ => ?_) planned
  rw [Batch.declarations, ← Planner.schema_plan, toOption_bind]
  cases planner.plan planned.1 batch.table batch.actions <;> rfl

theorem distinct_planBatches {planner : Planner} {batches : List Batch}
    {planned result : Registry × List Statement} (hdistinct : planned.1.Distinct)
    (hplan : planBatches planner planned batches = .ok result) : result.1.Distinct := by
  refine foldlM_preserves (fun planned : Registry × List Statement => planned.1.Distinct)
    (fun planned batch result hplanned hstep => ?_) hdistinct hplan
  obtain ⟨⟨changed, more⟩, hbatch, hresult⟩ := bind_eq_ok_iff.mp hstep
  cases hresult
  exact Planner.distinct_plan hplanned hbatch

end Compilation

end SchemaMigration
