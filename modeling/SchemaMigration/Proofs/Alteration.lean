import SchemaMigration.Proofs.RegistrySchema

/-!
# Altering a tracked table

An alteration is resolved on a copy of a tracked table, which then takes the
place of the stored one.  The outcome is the schema that the same actions give
when they are declared for the table one at a time.
-/

namespace SchemaMigration

namespace Action

/-- What a list of actions does to the columns of their table. -/
def onColumnsAll (actions : List Action) (columns : List Column) : Option (List Column) :=
  actions.foldlM (fun columns action => action.onColumns columns) columns

/-- What a list of actions does to the entries of their table. -/
def onEntriesAll (actions : List Action) (entries : List TableColumn) :
    Option (List TableColumn) :=
  actions.foldlM (fun entries action => action.onEntries entries) entries

theorem onColumnsAll_columns (actions : List Action) (entries : List TableColumn) :
    onColumnsAll actions (entries.map TableColumn.column) =
      (onEntriesAll actions entries).map (List.map TableColumn.column) := by
  induction actions generalizing entries with
  | nil => rfl
  | cons action rest ih =>
      simp only [onColumnsAll, onEntriesAll, List.foldlM_cons, Option.bind_eq_bind] at ih ⊢
      rw [onColumns_columns, Option.bind_map, Option.map_bind]
      congr 1
      funext changed
      exact ih changed

end Action

namespace Segment

def actions : Segment → List Action
  | alter actions => actions
  | create columns => [.createTable columns]
  | drop => [.dropTable]

/-- The actions of an alteration: changes of columns, and a renaming of the
table at most at the end. -/
def Alters (actions : List Action) : Prop :=
  actions ≠ [] ∧ ∃ (changes : List Action) (new : Option String),
    actions = changes ++ (new.map Action.renameTable).toList ∧
      ∀ action ∈ changes, action.isColumnChange = true

theorem alters_renameTable (new : String) : Alters [.renameTable new] :=
  ⟨by simp, [], some new, by simp, by simp⟩

theorem alters_single {action : Action} (hcolumn : action.isColumnChange = true) :
    Alters [action] :=
  ⟨by simp, [action], none, by simp, by simpa using hcolumn⟩

theorem alters_cons {action : Action} {actions : List Action}
    (hcolumn : action.isColumnChange = true) (halters : Alters actions) :
    Alters (action :: actions) := by
  obtain ⟨-, changes, new, rfl, hchanges⟩ := halters
  exact ⟨by simp, action :: changes, new, by simp, List.forall_mem_cons.mpr ⟨hcolumn, hchanges⟩⟩

/-- An alteration neither creates nor drops its table. -/
theorem not_terminal_of_alters {actions : List Action} (halters : Alters actions) :
    ∀ action ∈ actions, action.isTerminal = false := by
  obtain ⟨-, changes, new, rfl, hchanges⟩ := halters
  intro action hmem
  rcases List.mem_append.mp hmem with hmem | hmem
  · have hcolumn := hchanges action hmem
    cases action <;> first | rfl | cases hcolumn
  · cases new with
    | none => cases hmem
    | some new => rw [List.mem_singleton.mp hmem]; rfl

/-- A segment that a list of actions can be cut into. -/
def WellFormed : Segment → Prop
  | alter actions => Alters actions
  | create _ | drop => True

theorem cut_cons {action : Action} (hcolumn : action.isColumnChange = true)
    (rest : List Action) : cut (action :: rest) = prepend action (cut rest) := by
  cases action with
  | createTable columns => cases hcolumn
  | dropTable => cases hcolumn
  | renameTable new => cases hcolumn
  | _ => rfl

theorem wellFormed_prepend {action : Action} (hcolumn : action.isColumnChange = true)
    {segments : List Segment} (hsegments : ∀ segment ∈ segments, segment.WellFormed) :
    ∀ segment ∈ prepend action segments, segment.WellFormed := by
  unfold prepend
  split
  · rw [List.forall_mem_cons] at hsegments ⊢
    exact ⟨alters_cons hcolumn hsegments.1, hsegments.2⟩
  · exact List.forall_mem_cons.mpr ⟨alters_single hcolumn, hsegments⟩

theorem flatMap_actions_prepend (action : Action) (segments : List Segment) :
    (prepend action segments).flatMap actions = action :: segments.flatMap actions := by
  unfold prepend
  split <;> simp [actions]

/-- Cutting keeps every action in its place. -/
theorem flatMap_actions_cut (list : List Action) : (cut list).flatMap actions = list := by
  induction list with
  | nil => rfl
  | cons action rest ih =>
      by_cases hcolumn : action.isColumnChange = true
      · rw [cut_cons hcolumn, flatMap_actions_prepend, ih]
      · cases action <;> first
          | exact absurd rfl hcolumn
          | simp [cut, actions, ih]

theorem wellFormed_cut (list : List Action) : ∀ segment ∈ cut list, segment.WellFormed := by
  induction list with
  | nil => simp [cut]
  | cons action rest ih =>
      by_cases hcolumn : action.isColumnChange = true
      · rw [cut_cons hcolumn]
        exact wellFormed_prepend hcolumn ih
      · cases action with
        | createTable columns => exact List.forall_mem_cons.mpr ⟨trivial, ih⟩
        | dropTable => exact List.forall_mem_cons.mpr ⟨trivial, ih⟩
        | renameTable new => exact List.forall_mem_cons.mpr ⟨alters_renameTable new, ih⟩
        | _ => exact absurd rfl hcolumn

end Segment

namespace Registry

theorem applyAll_append (registry : Registry) (table : Table) (first second : List Action) :
    registry.applyAll table (first ++ second) =
      registry.applyAll table first >>= fun next => registry.applyAll next second :=
  List.foldlM_append

/-- Changes of columns act on the entries of the table and keep its name. -/
theorem toOption_applyAll (registry : Registry) {changes : List Action}
    (hchanges : ∀ action ∈ changes, action.isColumnChange = true) (table : Table) :
    (registry.applyAll table changes).toOption =
      (Action.onEntriesAll changes table.entries).map
        fun entries => { table with entries } := by
  induction changes generalizing table with
  | nil => rfl
  | cons action rest ih =>
      rw [List.forall_mem_cons] at hchanges
      have hnext := funext (ih hchanges.2)
      simp only [applyAll, Action.onEntriesAll, List.foldlM_cons, Option.bind_eq_bind]
        at hnext ⊢
      rw [toOption_bind, toOption_applyTo registry table hchanges.1, hnext, Option.bind_map,
        Option.map_bind]
      rfl

end Registry

namespace Schema

variable {replace : Bool}

theorem apply_columnChange {action : Action} (hcolumn : action.isColumnChange = true)
    (table : String) (schema : Schema) :
    apply replace ⟨table, action⟩ schema = schema.alter table action.onColumns := by
  have hfollow : Declaration.follow ⟨table, action⟩ = id := by
    cases action <;> first | rfl | cases hcolumn
  have hperform : perform replace ⟨table, action⟩ schema =
      schema.alter table action.onColumns := by
    cases action <;> first | rfl | cases hcolumn
  rw [apply, hfollow, hperform, funext Catalog.mapColumns_id]
  exact Option.map_id'

/-- Changes declared one at a time for an existing table. -/
theorem applyAll_changes {changes : List Action}
    (hchanges : ∀ action ∈ changes, action.isColumnChange = true) {schema : Schema}
    {table : String} {columns : List Column} (htable : schema table = some columns) :
    applyAll replace (changes.map (Declaration.mk table)) schema =
      (Action.onColumnsAll changes columns).map fun changed =>
        schema.set table (some changed) := by
  induction changes generalizing schema columns with
  | nil =>
      have hkept : schema.set table (some columns) = schema := by
        rw [← htable, Catalog.set_eq_self]
      simp [Action.onColumnsAll, hkept]
  | cons action rest ih =>
      rw [List.forall_mem_cons] at hchanges
      rw [List.map_cons, applyAll_cons, apply_columnChange hchanges.1, Catalog.alter, htable,
        Option.bind_some, Option.bind_map, Action.onColumnsAll, List.foldlM_cons,
        Option.bind_eq_bind, Option.map_bind]
      congr 1
      funext changed
      rw [Function.comp_apply, ih hchanges.2 (Catalog.set_self _ _ _)]
      simp only [Catalog.set_set]
      rfl

theorem apply_renameTable {schema : Schema} {source : String} {columns : List Column}
    (htable : schema source = some columns) (new : String) :
    apply replace ⟨source, .renameTable new⟩ schema =
      if (schema new).isSome then none
      else some (((schema.set source none).set new (some columns)).mapColumns
        (Column.retarget source new)) := by
  simp only [apply, perform, Catalog.move, htable, Option.bind_some]
  split <;> rfl

/-- The schema once a table has taken the place of the one called `source`. -/
def place (schema : Schema) (source : String) (table : Table) : Schema :=
  if table.name = source then schema.set source (some table.columns)
  else
    ((schema.set source none).mapColumns (Column.retarget source table.name)).set table.name
      (some table.columns)

end Schema

namespace Registry

variable {registry : Registry} {source : String} {stored : Table}

/-- Renaming a copy of the stored table. -/
theorem map_place_renameTable (replace : Bool) {table : Table} (hname : table.name = source)
    (hcontains : registry.contains source = true) (new : String) :
    (registry.applyTo table (.renameTable new)).toOption.map (registry.schema.place source) =
      Schema.apply replace ⟨source, .renameTable new⟩
        (registry.schema.set source (some table.columns)) := by
  rw [Schema.apply_renameTable (Catalog.set_self _ _ _)]
  by_cases hnew : registry.contains new = true
  · have htaken : ((registry.schema.set source (some table.columns)) new).isSome = true := by
      by_cases hsame : new = source
      · rw [hsame, Catalog.set_self, Option.isSome_some]
      · rw [Catalog.set_of_ne _ _ hsame, isSome_schema, hnew]
    rw [if_pos htaken, applyTo, if_pos hnew]
    rfl
  · have hmoved : new ≠ source := fun hsame => hnew (hsame ▸ hcontains)
    have hfree : ¬((registry.schema.set source (some table.columns)) new).isSome = true := by
      rw [Catalog.set_of_ne _ _ hmoved, isSome_schema]
      exact hnew
    rw [if_neg hfree, applyTo, if_neg hnew, Catalog.set_set, Catalog.mapColumns_set]
    simp only [Except.toOption, Option.map_some, Option.some.injEq]
    rw [Schema.place, if_neg (by exact hmoved), columns_retarget, hname]
    rfl

/-- Resolving an alteration on a copy of the stored table gives the columns
that its actions give when they are declared one at a time. -/
theorem map_place_applyAll {replace : Bool} {actions : List Action}
    (halters : Segment.Alters actions) (hfind : registry.find? source = some stored) :
    (registry.applyAll stored actions).toOption.map (registry.schema.place source) =
      Schema.applyAll replace (actions.map (Declaration.mk source)) registry.schema := by
  obtain ⟨-, changes, new, rfl, hchanges⟩ := halters
  have hname : stored.name = source := name_of_find? hfind
  have htable : registry.schema source = some (stored.entries.map TableColumn.column) := by
    rw [schema, hfind]
    rfl
  rw [applyAll_append, toOption_bind, toOption_applyAll registry hchanges, List.map_append,
    Schema.applyAll_append, Schema.applyAll_changes hchanges htable,
    Action.onColumnsAll_columns, Option.map_map, Option.bind_map, Option.bind_map,
    Option.map_bind]
  congr 1
  funext entries
  cases new with
  | none =>
      simp [applyAll, Except.toOption, pure, Except.pure, Schema.place, hname]
      rfl
  | some new =>
      have hrenamed : ({ stored with entries } : Table).name = source := hname
      have hmoved := map_place_renameTable replace hrenamed (contains_of_find? hfind) new
      simpa [applyAll, Table.columns] using hmoved

/-- Changes of columns that succeed keep the name of the table. -/
theorem name_of_applyAll_changes {changes : List Action} {table changed : Table}
    (hchanges : ∀ action ∈ changes, action.isColumnChange = true)
    (happly : registry.applyAll table changes = .ok changed) : changed.name = table.name := by
  have hentries := toOption_applyAll registry hchanges table
  rw [happly] at hentries
  obtain ⟨entries, -, hchanged⟩ := Option.map_eq_some_iff.mp hentries.symm
  rw [← hchanged]

/-- A renaming at the end leaves the table under a name that was free. -/
theorem name_of_applyAll_renaming {changes : List Action} {new : Option String}
    {target : Table} (hchanges : ∀ action ∈ changes, action.isColumnChange = true)
    (hfind : registry.find? source = some stored)
    (happly : registry.applyAll stored (changes ++ (new.map Action.renameTable).toList) =
      .ok target) :
    target.name = new.getD source ∧ ∀ name ∈ new, registry.contains name = false := by
  rw [applyAll_append, bind_eq_ok_iff] at happly
  obtain ⟨changed, hchanged, hlast⟩ := happly
  cases new with
  | none =>
      cases hlast
      have hname := (name_of_applyAll_changes hchanges hchanged).trans (name_of_find? hfind)
      exact ⟨hname, fun name hnone => by cases hnone⟩
  | some new =>
      have hmoved : registry.applyTo changed (.renameTable new) = .ok target := by
        simpa [applyAll] using hlast
      rw [applyTo] at hmoved
      split at hmoved
      · cases hmoved
      next hfree =>
        cases hmoved
        refine ⟨rfl, fun name hsome => ?_⟩
        cases hsome
        simpa using hfree

/-- An alteration leaves a table under its own name or under one that was free. -/
theorem name_of_applyAll {actions : List Action} {target : Table}
    (halters : Segment.Alters actions) (hfind : registry.find? source = some stored)
    (happly : registry.applyAll stored actions = .ok target) :
    target.name = source ∨ registry.contains target.name = false := by
  obtain ⟨-, changes, new, rfl, hchanges⟩ := halters
  obtain ⟨hname, hfree⟩ := name_of_applyAll_renaming hchanges hfind happly
  cases new with
  | none => exact Or.inl hname
  | some new =>
      rw [hname]
      exact Or.inr (hfree new rfl)

end Registry

end SchemaMigration
