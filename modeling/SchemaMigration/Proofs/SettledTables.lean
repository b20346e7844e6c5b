import SchemaMigration.Proofs.CopyOrigin
import SchemaMigration.Proofs.PlannedRuns

/-!
# Tables between two flushes

Between two flushes a tracked table has distinct column names, records nothing of
how its columns came about, and waits for no column to be filled from another.
What a segment leaves behind is such a table again, because an alteration that is
written in place brings no column to be filled.
-/

namespace SchemaMigration

namespace Registry

variable {registry : Registry} {table next : Table} {action : Action}

theorem onEntries_of_applyTo (hcolumn : action.isColumnChange = true)
    (happly : registry.applyTo table action = .ok next) :
    action.onEntries table.entries = some next.entries := by
  have hentries := toOption_applyTo registry table hcolumn
  rw [happly] at hentries
  obtain ⟨changed, hchanged, rfl⟩ := Option.map_eq_some_iff.mp hentries.symm
  exact hchanged

/-- What an action that can be applied does to a copy of a table. -/
theorem applyTo_cases (happly : registry.applyTo table action = .ok next) :
    (action.isColumnChange = true ∧ ∃ changed, action.onEntries table.entries = some changed ∧
        next = { table with entries := changed }) ∨
      (∃ new, action = .renameTable new ∧
        next = ({ table with name := new } : Table).retarget table.name new) ∨
      (action.isTerminal = true ∧ next = table) := by
  by_cases hcolumn : action.isColumnChange = true
  · have hentries := toOption_applyTo registry table hcolumn
    rw [happly] at hentries
    obtain ⟨changed, hchanged, hnext⟩ := Option.map_eq_some_iff.mp hentries.symm
    exact Or.inl ⟨hcolumn, changed, hchanged, hnext.symm⟩
  · cases action with
    | renameTable new =>
        rw [applyTo] at happly
        split at happly
        · cases happly
        · cases happly
          exact Or.inr (Or.inl ⟨new, rfl, rfl⟩)
    | createTable columns =>
        cases happly
        exact Or.inr (Or.inr ⟨rfl, rfl⟩)
    | dropTable =>
        cases happly
        exact Or.inr (Or.inr ⟨rfl, rfl⟩)
    | _ => exact absurd rfl hcolumn

end Registry

namespace Table

theorem columnNames_retarget (old new : String) (table : Table) :
    (table.retarget old new).columnNames = table.columnNames := by
  rw [columnNames, columnNames, retarget, List.map_map]
  exact List.map_congr_left fun entry _ => (Column.hom_retarget old new).name_eq entry.column

end Table

namespace Registry

theorem nodup_applyTo {registry : Registry} {table next : Table} {action : Action}
    (hnodup : table.columnNames.Nodup) (happly : registry.applyTo table action = .ok next) :
    next.columnNames.Nodup := by
  rcases applyTo_cases happly with ⟨-, changed, hchanged, rfl⟩ | ⟨new, -, rfl⟩ | ⟨-, rfl⟩
  · exact Action.nodup_onEntries hnodup hchanged
  · rwa [Table.columnNames_retarget]
  · exact hnodup

theorem nodup_applyAll {registry : Registry} {table target : Table} {actions : List Action}
    (hnodup : table.columnNames.Nodup)
    (happly : registry.applyAll table actions = .ok target) : target.columnNames.Nodup :=
  foldlM_preserves (fun table : Table => table.columnNames.Nodup)
    (fun _ _ _ hnodup hstep => nodup_applyTo hnodup hstep) hnodup happly

end Registry

namespace Planner

variable {planner : Planner} {registry next : Registry} {source : String} {batch : BatchPlan}

/-- Actions that are applied one after another, none of which needs a rebuild in
the state that it meets. -/
inductive InPlace (planner : Planner) (registry : Registry) : Table → List Action → Table → Prop
  | nil (table : Table) : InPlace planner registry table [] table
  | cons {table middle target : Table} {action : Action} {rest : List Action}
      (forces : planner.forcesRebuild table action = false)
      (step : registry.applyTo table action = .ok middle)
      (later : InPlace planner registry middle rest target) :
      InPlace planner registry table (action :: rest) target

theorem inPlace_of_needsRebuild {table target : Table} {actions : List Action}
    (happly : registry.applyAll table actions = .ok target)
    (hdirect : planner.needsRebuild registry table actions = false) :
    InPlace planner registry table actions target := by
  induction actions generalizing table with
  | nil =>
      cases happly
      exact .nil target
  | cons action rest ih =>
      obtain ⟨middle, hstep, hrest⟩ := bind_eq_ok_iff.mp happly
      rw [needsRebuild, firstForced?] at hdirect
      split at hdirect
      · cases hdirect
      next hforces =>
        rw [hstep] at hdirect
        exact .cons (by simpa using hforces) hstep (ih hrest hdirect)

/-- What an added column has, and what renaming it or a table that it references keeps,
every column keeps that is altered in place. -/
theorem InPlace.forall_entries {property : TableColumn → Prop}
    (hadded : ∀ (table : Table) (column : Column) (params : Option CopyParams),
      planner.forcesRebuild table (.addColumn column params) = false →
        property { column, params, origin := .added })
    (hrenamed : ∀ (new : String) (entry : TableColumn), property entry →
      property (entry.rename new))
    (hretargeted : ∀ (old new : String) (entry : TableColumn), property entry →
      property { entry with column := entry.column.retarget old new })
    {table target : Table} {actions : List Action}
    (hplace : InPlace planner registry table actions target)
    (hentries : ∀ entry ∈ table.entries, property entry) :
    ∀ entry ∈ target.entries, property entry := by
  induction hplace with
  | nil table => exact hentries
  | @cons table middle target action rest hforces hstep hlater ih =>
      refine ih ?_
      rcases Registry.applyTo_cases hstep with
        ⟨-, changed, hchanged, rfl⟩ | ⟨new, -, rfl⟩ | ⟨-, rfl⟩
      · cases action with
        | addColumn column params =>
            rw [(Columns.add_cases hchanged).2, List.forall_mem_append]
            exact ⟨hentries, List.forall_mem_singleton.mpr (hadded table column params hforces)⟩
        | changeColumn name definition params => cases hforces
        | dropColumn name =>
            rw [(Columns.drop_cases hchanged).2]
            exact fun entry hmem => hentries entry (List.mem_of_mem_eraseP hmem)
        | renameColumn old new =>
            rw [(Columns.modify_cases (Columns.rename_cases hchanged).2).2]
            intro entry hmem
            rcases Columns.mem_modify hmem with hkept | ⟨before, hbefore, rfl⟩
            · exact hentries entry hkept
            · exact hrenamed new before (hentries before hbefore)
        | createTable _ | dropTable | renameTable _ =>
            cases hchanged
            exact hentries
      · exact List.forall_mem_map.mpr fun entry hmem =>
          hretargeted table.name new entry (hentries entry hmem)
      · exact hentries

/-- What is altered in place brings no column that another is to fill. -/
theorem InPlace.unfilled {table target : Table} {actions : List Action}
    (hplace : InPlace planner registry table actions target)
    (hunfilled : ∀ entry ∈ table.entries, entry.fillFrom? = none) :
    ∀ entry ∈ target.entries, entry.fillFrom? = none := by
  have hadded : ∀ (table : Table) (column : Column) (params : Option CopyParams),
      planner.forcesRebuild table (.addColumn column params) = false →
        ({ column, params, origin := .added } : TableColumn).fillFrom? = none := by
    intro table column params hforces
    rw [forcesRebuild, Bool.or_eq_false_iff, Option.isSome_eq_false_iff,
      Option.isNone_iff_eq_none] at hforces
    exact hforces.2
  exact hplace.forall_entries hadded (fun _ _ hentry => hentry) (fun _ _ _ hentry => hentry)
    hunfilled

end Planner

/-! ## Settled tables -/

namespace Table

/-- A table as it is tracked between two flushes. -/
structure Settled (table : Table) : Prop where
  nodup : table.columnNames.Nodup
  kept : ∀ entry ∈ table.entries, entry.origin = .kept
  unfilled : ∀ entry ∈ table.entries, entry.fillFrom? = none

theorem settled_fresh {name : String} {columns : List Column}
    (hnodup : (Columns.names columns).Nodup) : (fresh name columns).Settled where
  nodup := by
    have hnames : (fresh name columns).columnNames = Columns.names columns := by
      rw [columnNames, fresh, List.map_map]
      rfl
    rwa [hnames]
  kept := List.forall_mem_map.mpr fun _ _ => rfl
  unfilled := List.forall_mem_map.mpr fun _ _ => rfl

theorem Settled.retarget {table : Table} (hsettled : table.Settled) (old new : String) :
    (table.retarget old new).Settled where
  nodup := by
    rw [columnNames_retarget]
    exact hsettled.nodup
  kept := List.forall_mem_map.mpr hsettled.kept
  unfilled := List.forall_mem_map.mpr hsettled.unfilled

theorem columnNames_settle (table : Table) : table.settle.columnNames = table.columnNames := by
  rw [columnNames, columnNames, settle, List.map_map]
  rfl

theorem columnNames_forgetParams (table : Table) :
    table.forgetParams.columnNames = table.columnNames := by
  rw [columnNames, columnNames, forgetParams, List.map_map]
  rfl

/-- A table whose columns are filled from no other, once their history is
forgotten. -/
theorem settled_settle {table : Table} (hnodup : table.columnNames.Nodup)
    (hunfilled : ∀ entry ∈ table.entries, entry.fillFrom? = none) : table.settle.Settled where
  nodup := by rwa [columnNames_settle]
  kept := List.forall_mem_map.mpr fun _ _ => rfl
  unfilled := List.forall_mem_map.mpr hunfilled

theorem settled_forgetParams {table : Table} (hnodup : table.columnNames.Nodup) :
    table.forgetParams.settle.Settled := by
  apply settled_settle
  · rwa [columnNames_forgetParams]
  · exact List.forall_mem_map.mpr fun _ _ => rfl

end Table

namespace Registry

/-- Every tracked table is settled. -/
def Settled (registry : Registry) : Prop := ∀ table ∈ registry.tables, table.Settled

variable {registry next : Registry} {name : String} {table : Table}

theorem Settled.find? (hsettled : registry.Settled) (hfind : registry.find? name = some table) :
    table.Settled :=
  hsettled table (List.mem_of_find?_eq_some hfind)

theorem Settled.insert (hsettled : registry.Settled) (htable : table.Settled)
    (hinsert : registry.insert table = .ok next) : next.Settled := by
  rw [Registry.insert] at hinsert
  split at hinsert
  · cases hinsert
  · cases hinsert
    exact List.forall_mem_append.mpr ⟨hsettled, List.forall_mem_singleton.mpr htable⟩

theorem Settled.remove (hsettled : registry.Settled) (hremove : registry.remove name = .ok next) :
    next.Settled := by
  rw [Registry.remove] at hremove
  split at hremove
  · cases hremove
    exact fun table hmem => hsettled table (List.mem_of_mem_filter hmem)
  · cases hremove

theorem Settled.overwrite (hsettled : registry.Settled) (htable : table.Settled) (name : String) :
    (registry.overwrite name table).Settled := by
  refine List.forall_mem_map.mpr fun stored hmem => ?_
  split
  · exact htable
  · exact hsettled stored hmem

theorem Settled.replace (hsettled : registry.Settled) (htable : table.Settled)
    (hreplace : registry.replace name table = .ok next) : next.Settled := by
  obtain ⟨-, ⟨-, rfl⟩ | ⟨-, -, rfl⟩⟩ := replace_cases hreplace
  · exact hsettled.overwrite htable name
  · have hretargeted : (registry.retarget name table.name).Settled :=
      List.forall_mem_map.mpr fun stored hmem => (hsettled stored hmem).retarget _ _
    exact hretargeted.overwrite htable name

end Registry

namespace Planner

variable {planner : Planner} {registry next : Registry} {source : String} {batch : BatchPlan}

theorem settled_planAlteration {actions : List Action} (hsettled : registry.Settled)
    (hplan : planner.planAlteration registry source actions = .ok (next, batch)) :
    next.Settled := by
  obtain ⟨stored, target, hfind, happly, houtcome⟩ := planAlteration_ok hplan
  have hstored := hsettled.find? hfind
  have hnodup := Registry.nodup_applyAll hstored.nodup happly
  rcases houtcome with ⟨-, hreplace, -⟩ | ⟨hdirect, hreplace, -⟩
  · exact hsettled.replace (Table.settled_forgetParams hnodup) hreplace
  · have hunfilled := (inPlace_of_needsRebuild happly hdirect).unfilled hstored.unfilled
    exact hsettled.replace (Table.settled_settle hnodup hunfilled) hreplace

theorem settled_planSegment {segment : Segment} (hsettled : registry.Settled)
    (hplan : planner.planSegment registry source segment = .ok (next, batch)) :
    next.Settled := by
  cases segment with
  | alter actions => exact settled_planAlteration hsettled hplan
  | create columns =>
      obtain ⟨hnodup, freed, hinsert, hfreed⟩ := planCreation_cases hplan
      have hfresh : (Table.fresh source columns).Settled := Table.settled_fresh hnodup
      rcases hfreed with ⟨-, rfl, -⟩ | ⟨-, hremove, -⟩
      · exact hsettled.insert hfresh hinsert
      · exact (hsettled.remove hremove).insert hfresh hinsert
  | drop => exact hsettled.remove (planDrop_cases hplan).1

end Planner

namespace Compilation

/-- Whatever a run compiles, its tables are settled. -/
theorem settled_run (settings : Settings) (commands : List Command) :
    ((new settings).run commands).registry.Settled := by
  have hkeeps : SegmentCheck.always.Keeps fun registry _ => registry.Settled := by
    intro planner registry next table segment batch statements _ _ hplan hsettled
    exact Planner.settled_planSegment hsettled hplan
  have hempty : Registry.empty.Settled := fun table hmem => absurd hmem List.not_mem_nil
  exact hkeeps.run_always hempty settings commands

end Compilation

end SchemaMigration
