import SchemaMigration.Planning.Planner
import SchemaMigration.Proofs.Declaration

/-!
# Actions on tracked tables

A tracked table is changed entry by entry.  Seen through the columns of its
entries, an action on a column does what it does to a plain list of columns.
-/

namespace SchemaMigration

instance : Named TableColumn where
  name := TableColumn.name
  withName name entry := entry.rename name

namespace TableColumn

theorem hom_column : Columns.Hom TableColumn.column := ⟨fun _ => rfl, fun _ _ => rfl⟩

/-- The entry after its column is changed. -/
def redefine (name : String) (definition : Option Column) (params : Option CopyParams)
    (entry : TableColumn) : TableColumn :=
  { entry with
    column := match definition with
      | some column => { column with name }
      | none => entry.column
    params := params <|> entry.params }

theorem name_redefine {entry : TableColumn} {name : String} (hname : entry.name = name)
    (definition : Option Column) (params : Option CopyParams) :
    (entry.redefine name definition params).name = entry.name := by
  cases definition with
  | none => rfl
  | some column => exact hname.symm

end TableColumn

namespace Action

/-- Whether the action changes the columns of its table and nothing else. -/
def isColumnChange (action : Action) : Bool :=
  !action.isTerminal && !action.isRenameTable

/-- What an action on a column does to the entries of its table. -/
def onEntries : Action → List TableColumn → Option (List TableColumn)
  | addColumn column params => Columns.add { column, params, origin := .added }
  | changeColumn name definition params =>
      Columns.modify name fun entry =>
        { entry with
          column := match definition with
            | some column => { column with name }
            | none => entry.column
          params := params <|> entry.params }
  | dropColumn name => Columns.drop name
  | renameColumn old new => Columns.rename old new
  | createTable _ | dropTable | renameTable _ => some

theorem onColumns_columns (action : Action) (entries : List TableColumn) :
    action.onColumns (entries.map TableColumn.column) =
      (action.onEntries entries).map (List.map TableColumn.column) := by
  cases action with
  | addColumn column params =>
      exact TableColumn.hom_column.add_map ⟨column, params, .added⟩ entries
  | changeColumn name definition params =>
      refine TableColumn.hom_column.modify_map (fun entry => ?_) name entries
      cases definition <;> rfl
  | dropColumn name => exact TableColumn.hom_column.drop_map name entries
  | renameColumn old new => exact TableColumn.hom_column.rename_map old new entries
  | createTable columns => rfl
  | dropTable => rfl
  | renameTable new => rfl

/-- Changes of columns keep the names of the columns distinct. -/
theorem nodup_onEntries {action : Action} {entries changed : List TableColumn}
    (hnodup : (Columns.names entries).Nodup) (hstep : action.onEntries entries = some changed) :
    (Columns.names changed).Nodup := by
  cases action with
  | addColumn column params =>
      obtain ⟨hfree, rfl⟩ := Columns.add_cases hstep
      have hnames :
          Columns.names (entries ++ [({ column, params, origin := .added } : TableColumn)]) =
            Columns.names entries ++ [column.name] := List.map_append
      rw [hnames]
      have hnew : column.name ∉ Columns.names entries := hfree
      exact hnodup.append (List.nodup_singleton _) (by simpa using hnew)
  | changeColumn name definition params =>
      rw [(Columns.modify_cases hstep).2, Columns.place, modify_findIdx_eq_map hnodup]
      have hnames : Columns.names (entries.map fun entry : TableColumn =>
          if Named.name entry = name then entry.redefine name definition params else entry) =
            Columns.names entries := by
        rw [Columns.names, List.map_map]
        apply List.map_congr_left
        intro entry _
        rw [Function.comp_apply]
        split
        next hname => exact TableColumn.name_redefine hname definition params
        · rfl
      exact hnames ▸ hnodup
  | dropColumn name =>
      rw [(Columns.drop_cases hstep).2]
      exact hnodup.sublist (List.eraseP_sublist.map _)
  | renameColumn old new =>
      obtain ⟨hfree, hmodify⟩ := Columns.rename_cases hstep
      rw [(Columns.modify_cases hmodify).2, Columns.place, modify_findIdx_eq_map hnodup]
      have hnames : Columns.names (entries.map fun entry : TableColumn =>
          if Named.name entry = old then Named.withName new entry else entry) =
            (Columns.names entries).map fun name => if name = old then new else name := by
        rw [Columns.names, Columns.names, List.map_map, List.map_map]
        apply List.map_congr_left
        intro entry _
        rw [Function.comp_apply, Function.comp_apply]
        split <;> rfl
      rw [hnames]
      refine List.Nodup.map_on ?_ hnodup
      intro first hfirst second hsecond heq
      grind
  | createTable _ | dropTable | renameTable _ =>
      cases hstep
      exact hnodup

end Action

namespace Table

theorem isSome_find? (table : Table) (name : String) :
    (table.find? name).isSome = true ↔ name ∈ Columns.names table.entries := by
  simp only [find?, List.find?_isSome, Columns.names, List.mem_map, decide_eq_true_eq]
  rfl

theorem find?_eq_none_iff (table : Table) (name : String) :
    table.find? name = none ↔ name ∉ Columns.names table.entries := by
  rw [← isSome_find?, Bool.not_eq_true, Option.isSome_eq_false_iff, Option.isNone_iff_eq_none]

/-- Where names are distinct, a change of the first column of a name changes every
column of that name. -/
theorem modify_eq_map {table : Table} (hnodup : table.columnNames.Nodup) (name : String)
    (change : TableColumn → TableColumn) :
    table.modify name change =
      { table with
        entries := table.entries.map fun entry =>
          if entry.name = name then change entry else entry } :=
  congrArg (Table.mk table.name) (modify_findIdx_eq_map hnodup name change)

theorem find?_cases (table : Table) (name : String) :
    (table.find? name = none ∧ name ∉ Columns.names table.entries) ∨
      ∃ entry, table.find? name = some entry ∧ name ∈ Columns.names table.entries := by
  cases hfind : table.find? name with
  | none => exact Or.inl ⟨rfl, (find?_eq_none_iff _ _).mp hfind⟩
  | some entry => exact Or.inr ⟨entry, rfl, (isSome_find? _ _).mp (by simp [hfind])⟩

theorem toOption_addColumn (table : Table) (column : Column) (params : Option CopyParams) :
    (table.addColumn column params).toOption =
      ((Action.addColumn column params).onEntries table.entries).map
        fun entries => { table with entries } := by
  rw [addColumn]
  rcases table.find?_cases column.name with ⟨hfind, hname⟩ | ⟨entry, hfind, hname⟩
  all_goals simp [hfind, Action.onEntries, Columns.add, Named.name, TableColumn.name, hname,
    Except.toOption]

theorem toOption_changeColumn (table : Table) (name : String) (definition : Option Column)
    (params : Option CopyParams) :
    (table.changeColumn name definition params).toOption =
      ((Action.changeColumn name definition params).onEntries table.entries).map
        fun entries => { table with entries } := by
  rw [changeColumn]
  rcases table.find?_cases name with ⟨hfind, hname⟩ | ⟨entry, hfind, hname⟩
  · simp [hfind, Action.onEntries, Columns.modify, hname, Except.toOption]
  · simp only [hfind, Action.onEntries, Columns.modify, if_pos hname, Option.map_some]
    rfl

theorem toOption_dropColumn (table : Table) (name : String) :
    (table.dropColumn name).toOption =
      ((Action.dropColumn name).onEntries table.entries).map
        fun entries => { table with entries } := by
  rw [dropColumn]
  rcases table.find?_cases name with ⟨hfind, hname⟩ | ⟨entry, hfind, hname⟩
  all_goals simp [hfind, Action.onEntries, Columns.drop, hname, Except.toOption, Named.name]

theorem toOption_renameColumn (table : Table) (old new : String) :
    (table.renameColumn old new).toOption =
      ((Action.renameColumn old new).onEntries table.entries).map
        fun entries => { table with entries } := by
  rw [renameColumn]
  rcases table.find?_cases new with ⟨hnewFind, hnew⟩ | ⟨entry, hnewFind, hnew⟩
  · rcases table.find?_cases old with ⟨holdFind, hold⟩ | ⟨entry, holdFind, hold⟩
    · simp [hnewFind, holdFind, Action.onEntries, Columns.rename, Columns.modify, hnew, hold,
        Except.toOption]
    · simp only [hnewFind, holdFind, Action.onEntries, Columns.rename, Columns.modify,
        if_neg hnew, if_pos hold, Option.map_some]
      rfl
  · simp [hnewFind, Action.onEntries, Columns.rename, hnew, Except.toOption]

end Table

namespace Registry

/-- An action on a column acts on the entries of the table and keeps its name. -/
theorem toOption_applyTo (registry : Registry) (table : Table) {action : Action}
    (hcolumn : action.isColumnChange = true) :
    (registry.applyTo table action).toOption =
      (action.onEntries table.entries).map fun entries => { table with entries } := by
  cases action with
  | addColumn column params => exact table.toOption_addColumn column params
  | changeColumn name definition params =>
      exact table.toOption_changeColumn name definition params
  | dropColumn name => exact table.toOption_dropColumn name
  | renameColumn old new => exact table.toOption_renameColumn old new
  | createTable columns => cases hcolumn
  | dropTable => cases hcolumn
  | renameTable new => cases hcolumn

end Registry

end SchemaMigration
