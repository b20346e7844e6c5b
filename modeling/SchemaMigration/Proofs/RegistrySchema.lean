import SchemaMigration.Proofs.Results
import SchemaMigration.Proofs.TrackedColumns

/-!
# The schema that a registry tracks

Seen as a catalog of columns, a registry inserts, removes and replaces tables as
a catalog does.  The names of the tracked tables stay distinct throughout.
-/

namespace SchemaMigration

/-- Where keys differ, an item is found by its key. -/
theorem find?_eq_some_of_nodup {α κ : Type} [DecidableEq κ] {key : α → κ} {items : List α}
    (hnodup : (items.map key).Nodup) {item : α} (hmem : item ∈ items) :
    items.find? (fun other => key other = key item) = some item := by
  induction items with
  | nil => cases hmem
  | cons first rest ih =>
      rw [List.map_cons, List.nodup_cons] at hnodup
      rcases List.mem_cons.mp hmem with rfl | hrest
      · exact List.find?_cons_of_pos (by simp)
      · have hother : key first ≠ key item := fun hsame =>
          hnodup.1 (hsame ▸ List.mem_map_of_mem hrest)
        rw [List.find?_cons_of_neg (by simpa using hother)]
        exact ih hnodup.2 hrest

namespace Registry

/-- The columns of every tracked table. -/
def schema (registry : Registry) : Schema :=
  fun name => (registry.find? name).map Table.columns

/-- No two tracked tables share a name. -/
def Distinct (registry : Registry) : Prop := (registry.tables.map (·.name)).Nodup

theorem contains_iff (registry : Registry) (name : String) :
    registry.contains name = true ↔ name ∈ registry.tables.map (·.name) := by
  simp [contains, find?, List.find?_isSome]

theorem isSome_schema (registry : Registry) (name : String) :
    (registry.schema name).isSome = registry.contains name := by
  simp [schema, contains]

theorem schema_eq_none {registry : Registry} {name : String}
    (hfree : registry.contains name = false) : registry.schema name = none := by
  rw [← isSome_schema, Option.isSome_eq_false_iff, Option.isNone_iff_eq_none] at hfree
  exact hfree

theorem name_of_find? {registry : Registry} {name : String} {table : Table}
    (hfind : registry.find? name = some table) : table.name = name := by
  simpa using List.find?_some hfind

theorem contains_of_find? {registry : Registry} {name : String} {table : Table}
    (hfind : registry.find? name = some table) : registry.contains name = true := by
  simp [contains, hfind]

theorem find?_eq_none_iff (registry : Registry) (name : String) :
    registry.find? name = none ↔ registry.contains name = false := by
  simp [contains]

/-! ## Inserting and removing -/

theorem find?_append (registry : Registry) (table : Table) (name : String) :
    find? ⟨registry.tables ++ [table]⟩ name =
      (registry.find? name).or (if table.name = name then some table else none) := by
  simp [find?, List.find?_append, List.find?_singleton]

theorem find?_insert {registry next : Registry} {table : Table}
    (hinsert : registry.insert table = .ok next) (name : String) :
    next.find? name = if name = table.name then some table else registry.find? name := by
  rw [insert] at hinsert
  split at hinsert
  · cases hinsert
  next hfree =>
    cases hinsert
    rw [find?_append]
    by_cases hname : name = table.name
    · have hnone : registry.find? table.name = none :=
        (find?_eq_none_iff _ _).mpr (by simpa using hfree)
      rw [hname, hnone]
      simp
    · rw [if_neg hname, if_neg (Ne.symm hname), Option.or_none]

theorem schema_insert {registry next : Registry} {table : Table}
    (hinsert : registry.insert table = .ok next) :
    next.schema = registry.schema.set table.name (some table.columns) := by
  funext name
  rw [schema, find?_insert hinsert]
  by_cases hname : name = table.name
  · rw [if_pos hname, hname, Catalog.set_self, Option.map_some]
  · rw [if_neg hname, Catalog.set_of_ne _ _ hname, schema]

theorem find?_remove {registry next : Registry} {name : String}
    (hremove : registry.remove name = .ok next) (other : String) :
    next.find? other = if other = name then none else registry.find? other := by
  rw [remove] at hremove
  split at hremove
  · cases hremove
    rw [find?, find?, List.find?_filter]
    split
    next hother => simp [hother]
    next hother =>
      congr 1
      funext table
      by_cases htable : table.name = other
      · simp [htable, hother]
      · simp [htable]
  · cases hremove

theorem schema_remove {registry next : Registry} {name : String}
    (hremove : registry.remove name = .ok next) :
    next.schema = registry.schema.set name none := by
  funext other
  rw [schema, find?_remove hremove]
  by_cases hother : other = name
  · rw [if_pos hother, hother, Catalog.set_self, Option.map_none]
  · rw [if_neg hother, Catalog.set_of_ne _ _ hother, schema]

/-! ## Replacing -/

theorem find?_retarget (old new : String) (registry : Registry) (name : String) :
    (registry.retarget old new).find? name =
      (registry.find? name).map (Table.retarget old new) := by
  simp only [find?, retarget, List.find?_map]
  rfl

theorem contains_retarget (old new : String) (registry : Registry) (name : String) :
    (registry.retarget old new).contains name = registry.contains name := by
  simp [contains, find?_retarget]

theorem columns_retarget (old new : String) (table : Table) :
    (table.retarget old new).columns = table.columns.map (Column.retarget old new) := by
  simp [Table.columns, Table.retarget]

theorem schema_retarget (old new : String) (registry : Registry) :
    (registry.retarget old new).schema =
      registry.schema.mapColumns (Column.retarget old new) := by
  funext name
  simp [schema, Catalog.mapColumns, find?_retarget, Function.comp_def, columns_retarget]

theorem find?_overwrite_of_ne (registry : Registry) (name : String) {table : Table}
    {other : String} (hother : other ≠ table.name) :
    (registry.overwrite name table).find? other =
      if other = name then none else registry.find? other := by
  obtain ⟨tables⟩ := registry
  simp only [overwrite, find?]
  induction tables with
  | nil => simp
  | cons stored rest ih =>
      rw [List.map_cons]
      by_cases hstored : stored.name = name
      · rw [if_pos hstored, List.find?_cons_of_neg (by simpa using hother.symm), ih]
        by_cases hname : other = name
        · simp [hname]
        · rw [if_neg hname, if_neg hname, List.find?_cons_of_neg]
          simpa [hstored] using Ne.symm hname
      · rw [if_neg hstored]
        by_cases hhead : stored.name = other
        · have hname : other ≠ name := fun hname => hstored (hhead.trans hname)
          rw [if_neg hname, List.find?_cons_of_pos (by simpa using hhead),
            List.find?_cons_of_pos (by simpa using hhead)]
        · rw [List.find?_cons_of_neg (by simpa using hhead), ih,
            List.find?_cons_of_neg (by simpa using hhead)]

/-- A table put into the place of another is found under its own name, which no
table had but the one it replaces. -/
theorem find?_overwrite_self {registry : Registry} {name : String} {table : Table}
    (hcontains : registry.contains name = true)
    (hfree : table.name = name ∨ registry.contains table.name = false) :
    (registry.overwrite name table).find? table.name = some table := by
  obtain ⟨tables⟩ := registry
  rw [contains_iff] at hcontains
  rw [← Bool.not_eq_true, contains_iff] at hfree
  simp only [overwrite, find?]
  induction tables with
  | nil => simp at hcontains
  | cons stored rest ih =>
      rw [List.map_cons]
      by_cases hstored : stored.name = name
      · rw [if_pos hstored]
        simp
      · have hhead : stored.name ≠ table.name := by
          rcases hfree with hsame | hfree
          · rwa [hsame]
          · intro hhead
            exact hfree (by simp [hhead])
        rw [if_neg hstored, List.find?_cons_of_neg (by simpa using hhead)]
        apply ih
        · simpa [Ne.symm hstored] using hcontains
        · exact hfree.imp_right fun hfree hmem => hfree (List.mem_cons_of_mem _ hmem)

theorem schema_overwrite {registry : Registry} {name : String} {table : Table}
    (hcontains : registry.contains name = true)
    (hfree : table.name = name ∨ registry.contains table.name = false) :
    (registry.overwrite name table).schema =
      (registry.schema.set name none).set table.name (some table.columns) := by
  funext other
  by_cases hother : other = table.name
  · subst hother
    rw [Catalog.set_self, schema, find?_overwrite_self hcontains hfree, Option.map_some]
  · rw [Catalog.set_of_ne _ _ hother, schema, find?_overwrite_of_ne _ _ hother]
    by_cases hname : other = name
    · subst hname
      simp
    · rw [Catalog.set_of_ne _ _ hname, if_neg hname]
      rfl

/-- A replacement keeps the name, or takes a free one and redirects the foreign
columns of the other tables. -/
theorem replace_cases {registry next : Registry} {name : String} {table : Table}
    (hreplace : registry.replace name table = .ok next) :
    registry.contains name = true ∧
      ((table.name = name ∧ next = registry.overwrite name table) ∨
        (table.name ≠ name ∧ registry.contains table.name = false ∧
          next = (registry.retarget name table.name).overwrite name table)) := by
  rw [replace] at hreplace
  by_cases hcontains : registry.contains name = true
  · rw [if_neg (by simp [hcontains])] at hreplace
    refine ⟨hcontains, ?_⟩
    by_cases hsame : table.name = name
    · rw [if_pos hsame] at hreplace
      exact Or.inl ⟨hsame, (Except.ok.inj hreplace).symm⟩
    · rw [if_neg hsame] at hreplace
      by_cases hfree : registry.contains table.name = true
      · rw [if_pos hfree] at hreplace
        cases hreplace
      · rw [if_neg hfree] at hreplace
        exact Or.inr ⟨hsame, by simpa using hfree, (Except.ok.inj hreplace).symm⟩
  · rw [if_pos (by simpa using hcontains)] at hreplace
    cases hreplace

/-- The replacement is found under its own name. -/
theorem find?_of_replace {registry next : Registry} {name : String} {table : Table}
    (hreplace : registry.replace name table = .ok next) :
    next.find? table.name = some table := by
  obtain ⟨hcontains, ⟨hsame, rfl⟩ | ⟨-, hfree, rfl⟩⟩ := replace_cases hreplace
  · exact find?_overwrite_self hcontains (Or.inl hsame)
  · rw [← contains_retarget name table.name] at hcontains hfree
    exact find?_overwrite_self hcontains (Or.inr hfree)

/-- The other tables stay where they are found, and follow a replacement that takes another
name. -/
theorem find?_of_replace_of_ne {registry next : Registry} {name : String} {table : Table}
    (hreplace : registry.replace name table = .ok next) {other : String}
    (hother : other ≠ table.name) :
    next.find? other =
      if other = name then none
      else (registry.find? other).map fun stored =>
        if table.name = name then stored else stored.retarget name table.name := by
  obtain ⟨-, ⟨hsame, rfl⟩ | ⟨hmoved, -, rfl⟩⟩ := replace_cases hreplace
  · rw [find?_overwrite_of_ne registry name hother]
    simp only [if_pos hsame, Option.map_id']
  · rw [find?_overwrite_of_ne _ name hother, find?_retarget]
    simp only [if_neg hmoved]

/-- Replacing a table by one of the same name. -/
theorem schema_replace_self {registry next : Registry} {name : String} {table : Table}
    (hsame : table.name = name) (hreplace : registry.replace name table = .ok next) :
    next.schema = registry.schema.set name (some table.columns) := by
  obtain ⟨hcontains, ⟨-, rfl⟩ | ⟨hmoved, -, -⟩⟩ := replace_cases hreplace
  · rw [schema_overwrite hcontains (Or.inl hsame), hsame, Catalog.set_set]
  · exact absurd hsame hmoved

/-- Replacing a table by one of a new name redirects the other tables. -/
theorem schema_replace_of_ne {registry next : Registry} {name : String} {table : Table}
    (hmoved : table.name ≠ name) (hreplace : registry.replace name table = .ok next) :
    next.schema =
      ((registry.schema.set name none).mapColumns
        (Column.retarget name table.name)).set table.name (some table.columns) := by
  obtain ⟨hcontains, ⟨hsame, -⟩ | ⟨-, hfree, rfl⟩⟩ := replace_cases hreplace
  · exact absurd hsame hmoved
  · rw [schema_overwrite, schema_retarget, Catalog.mapColumns_set, Option.map_none]
    · rwa [contains_retarget]
    · rw [contains_retarget]
      exact Or.inr hfree

/-- A tracked table can be replaced by one whose name it has or is free. -/
theorem exists_replace {registry : Registry} {name : String} {table : Table}
    (hcontains : registry.contains name = true)
    (hfree : table.name = name ∨ registry.contains table.name = false) :
    ∃ next, registry.replace name table = .ok next := by
  rw [replace]
  rw [if_neg (by simp [hcontains])]
  by_cases hsame : table.name = name
  · exact ⟨_, if_pos hsame⟩
  · rw [if_neg hsame, if_neg (by simpa [hsame] using hfree)]
    exact ⟨_, rfl⟩

/-! ## Distinct names -/

theorem distinct_empty : empty.Distinct := List.nodup_nil

theorem distinct_insert {registry next : Registry} {table : Table}
    (hdistinct : registry.Distinct) (hinsert : registry.insert table = .ok next) :
    next.Distinct := by
  rw [insert] at hinsert
  split at hinsert
  · cases hinsert
  next hfree =>
    cases hinsert
    rw [contains_iff] at hfree
    simp only [Distinct, List.map_append, List.map_cons, List.map_nil]
    exact hdistinct.append (List.nodup_singleton _) (by simpa using hfree)

theorem distinct_remove {registry next : Registry} {name : String}
    (hdistinct : registry.Distinct) (hremove : registry.remove name = .ok next) :
    next.Distinct := by
  rw [remove] at hremove
  split at hremove
  · cases hremove
    exact hdistinct.sublist (List.filter_sublist.map _)
  · cases hremove

/-- Where names are distinct, a table that is removed is the first of its name. -/
theorem tables_remove {registry next : Registry} {name : String}
    (hdistinct : registry.Distinct) (hremove : registry.remove name = .ok next) :
    next.tables = registry.tables.eraseP (·.name = name) := by
  rw [remove] at hremove
  split at hremove
  · cases hremove
    exact (eraseP_eq_filter hdistinct name).symm
  · cases hremove

/-- Likewise a table is put into the place of the first of the name. -/
theorem tables_overwrite {registry : Registry} (hdistinct : registry.Distinct) (name : String)
    (table : Table) :
    (registry.overwrite name table).tables =
      registry.tables.modify (registry.tables.findIdx (·.name = name)) fun _ => table :=
  (modify_findIdx_eq_map hdistinct name fun _ => table).symm

theorem distinct_retarget {registry : Registry} (hdistinct : registry.Distinct)
    (old new : String) : (registry.retarget old new).Distinct := by
  have hnames : (registry.retarget old new).tables.map (·.name) =
      registry.tables.map (·.name) := by
    simp [retarget, Table.retarget, Function.comp_def]
  rwa [Distinct, hnames]

theorem distinct_overwrite {registry : Registry} (hdistinct : registry.Distinct)
    {name : String} {table : Table}
    (hfree : table.name = name ∨ registry.contains table.name = false) :
    (registry.overwrite name table).Distinct := by
  have hnames : (registry.overwrite name table).tables.map (·.name) =
      (registry.tables.map (·.name)).map
        fun other => if other = name then table.name else other := by
    simp only [overwrite, List.map_map]
    apply List.map_congr_left
    intro stored _
    simp only [Function.comp_apply]
    split <;> rfl
  rw [← Bool.not_eq_true, contains_iff] at hfree
  rw [Distinct, hnames]
  refine List.Nodup.map_on ?_ hdistinct
  intro first hfirst second hsecond heq
  grind

theorem distinct_replace {registry next : Registry} {name : String} {table : Table}
    (hdistinct : registry.Distinct) (hreplace : registry.replace name table = .ok next) :
    next.Distinct := by
  obtain ⟨-, ⟨hsame, rfl⟩ | ⟨-, hfree, rfl⟩⟩ := replace_cases hreplace
  · exact distinct_overwrite hdistinct (Or.inl hsame)
  · refine distinct_overwrite (distinct_retarget hdistinct _ _) (Or.inr ?_)
    rwa [contains_retarget]

end Registry

end SchemaMigration
