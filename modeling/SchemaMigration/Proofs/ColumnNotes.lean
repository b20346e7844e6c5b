import SchemaMigration.Proofs.SettledTables

/-!
# Notes kept by column name

While a batch is planned three things are noted of the columns of a table: the copy
parameters that wait, the columns that were renamed with their names in the stored
table, and the columns that were added.  An entry of a table carries the notes of
its own column.  Kept apart, in maps from column names, the notes have to be moved
when a column is renamed and erased when it is dropped.  Both ways of keeping them
agree after every action, so no note is left behind for a name that no column has.
-/

namespace SchemaMigration

/-- What is noted of columns, by name. -/
@[ext]
structure ColumnNotes where
  params : String → Option CopyParams
  renamedFrom : String → Option String
  added : String → Bool

namespace ColumnNotes

open Function

/-- The map with what it holds for `old`, if anything, put under `new`. -/
def move {α : Type} (old new : String) (map : String → Option α) : String → Option α :=
  match map old with
  | some moved => update (update map old none) new (some moved)
  | none => map

theorem move_apply {α : Type} (old : String) {new : String} {map : String → Option α}
    (hfree : map new = none) (name : String) :
    move old new map name =
      if name = new then map old else if name = old then none else map name := by
  rw [move]
  cases hold : map old with
  | some moved => simp only [update_apply]
  | none =>
      simp only
      split_ifs with hnew hname
      · rw [hnew, hfree]
      · rw [hname, hold]
      · rfl

/-- The notes after an accepted action, kept apart from the columns. -/
def record (notes : ColumnNotes) : Action → ColumnNotes
  | .addColumn column params =>
      { notes with
        params := match params with
          | some given => update notes.params column.name (some given)
          | none => notes.params
        added := update notes.added column.name true }
  | .changeColumn name _ params =>
      { notes with
        params := match params with
          | some given => update notes.params name (some given)
          | none => notes.params }
  | .dropColumn name =>
      ⟨update notes.params name none, update notes.renamedFrom name none,
        update notes.added name false⟩
  | .renameColumn old new =>
      if notes.added old then
        { notes with
          params := move old new notes.params
          added := update (update notes.added old false) new true }
      else
        { notes with
          params := move old new notes.params
          renamedFrom := update (update notes.renamedFrom old none) new
            (some ((notes.renamedFrom old).getD old)) }
  | .createTable _ | .dropTable | .renameTable _ => notes

/-- The notes once the batch is planned: of its history nothing stays. -/
def settle (notes : ColumnNotes) : ColumnNotes :=
  ⟨notes.params, fun _ => none, fun _ => false⟩

/-- The notes without the copy parameters, which a rebuild has used up. -/
def forgetParams (notes : ColumnNotes) : ColumnNotes := { notes with params := fun _ => none }

/-- The notes once actions on a table are planned, as a rebuild or in place. -/
def planned (notes : ColumnNotes) (rebuilt : Bool) (actions : List Action) : ColumnNotes :=
  let noted := actions.foldl record notes
  if rebuilt then noted.forgetParams.settle else noted.settle

/-- What a copy reads for a column, looked up by name. -/
def copyExpression? (notes : ColumnNotes) (name : String) : Option CopyExpression :=
  let fillFrom := (notes.params name).bind (·.fillFrom)
  let coalesce := (notes.params name).bind (·.coalesce)
  if notes.added name then
    match fillFrom, coalesce with
    | some source, some fallback => some (.coalesce source fallback)
    | some source, none => some (.column source)
    | none, some fallback => some (.literal fallback)
    | none, none => none
  else
    match coalesce, notes.renamedFrom name with
    | some fallback, renamed =>
        some (.coalesce (fillFrom.getD (renamed.getD name)) fallback)
    | none, some source => some (.column source)
    | none, none => some (.column (fillFrom.getD name))

/-- The copied columns among those of the given names, each with what it reads. -/
def copies (notes : ColumnNotes) (names : List String) : List (String × CopyExpression) :=
  names.filterMap fun name => (notes.copyExpression? name).map fun expression => (name, expression)

/-- Every note is about one of the given names. -/
def Within (notes : ColumnNotes) (names : List String) : Prop :=
  ∀ name ∉ names, notes.params name = none ∧ notes.renamedFrom name = none ∧
    notes.added name = false

end ColumnNotes

namespace TableColumn

/-- The name in the stored table of a renamed column. -/
def renamedFrom? (entry : TableColumn) : Option String :=
  match entry.origin with
  | .renamed source => some source
  | .kept | .added => none

def isAdded (entry : TableColumn) : Bool := entry.origin = .added

theorem renamedFrom?_rename (entry : TableColumn) (new : String) :
    (entry.rename new).renamedFrom? =
      if entry.isAdded then none else some (entry.renamedFrom?.getD entry.name) := by
  rw [renamedFrom?, isAdded, rename, renamedFrom?]
  cases entry.origin <;> simp

theorem isAdded_rename (entry : TableColumn) (new : String) :
    (entry.rename new).isAdded = entry.isAdded := by
  rw [isAdded, isAdded, rename]
  cases entry.origin <;> simp

theorem renamedFrom?_of_isAdded {entry : TableColumn} (hadded : entry.isAdded = true) :
    entry.renamedFrom? = none := by
  rw [isAdded, decide_eq_true_eq] at hadded
  rw [renamedFrom?, hadded]

end TableColumn

namespace Table

variable {table next : Table}

/-- The notes that the entries of a table carry. -/
def notes (table : Table) : ColumnNotes where
  params name := (table.find? name).bind (·.params)
  renamedFrom name := (table.find? name).bind (·.renamedFrom?)
  added name := (table.find? name).any (·.isAdded)

theorem notes_within (table : Table) : table.notes.Within table.columnNames := by
  intro name hname
  have hmissing : table.find? name = none := (find?_eq_none_iff table name).mpr hname
  simp [notes, hmissing]

/-- A rebuild copies what the notes of the table say of its columns. -/
theorem copies_eq (hnodup : table.columnNames.Nodup) :
    table.copies = table.notes.copies table.columnNames := by
  have hread : ∀ entry ∈ table.entries,
      table.notes.copyExpression? entry.name = entry.copyExpression? := by
    intro entry hmem
    have hfind : table.find? entry.name = some entry := find?_of_mem hnodup hmem
    rw [ColumnNotes.copyExpression?, TableColumn.copyExpression?, TableColumn.fillFrom?,
      TableColumn.coalesce?, TableColumn.sourceName]
    simp only [notes, hfind, Option.bind_some, Option.any_some]
    rw [TableColumn.isAdded, TableColumn.renamedFrom?]
    cases entry.origin <;> cases entry.params.bind (·.coalesce) <;>
      cases entry.params.bind (·.fillFrom) <;> rfl
  rw [copies, ColumnNotes.copies, columnNames, List.filterMap_map]
  refine List.filterMap_congr fun entry hmem => ?_
  rw [Function.comp_apply, hread entry hmem]

/-! ## Looking up a column after an action -/

theorem find?_addColumn {column : Column} {params : Option CopyParams}
    (hadd : table.addColumn column params = .ok next) :
    table.find? column.name = none ∧ ∀ name, next.find? name =
      if name = column.name then some { column, params, origin := .added }
      else table.find? name := by
  rw [addColumn] at hadd
  split at hadd
  · cases hadd
  next hfree =>
    cases hadd
    refine ⟨hfree, fun name => ?_⟩
    have happend : find? { table with entries := table.entries ++
        [{ column, params, origin := .added }] } name =
          (table.find? name).or
            (if column.name = name then some { column, params, origin := .added } else none) := by
      simp only [find?, List.find?_append, List.find?_singleton, decide_eq_true_eq]
      rfl
    rw [happend]
    by_cases hname : name = column.name
    · rw [hname, hfree]
      simp
    · rw [if_neg hname, if_neg (Ne.symm hname), Option.or_none]

theorem find?_changeColumn (hnodup : table.columnNames.Nodup) {column : String}
    {definition : Option Column} {params : Option CopyParams}
    (hchange : table.changeColumn column definition params = .ok next) (name : String) :
    (table.find? column).isSome = true ∧ next.find? name =
      (table.find? name).map fun entry =>
        if name = column then entry.redefine column definition params else entry := by
  rw [changeColumn] at hchange
  split at hchange
  · cases hchange
  next entry hfound =>
    cases hchange
    refine ⟨by rw [hfound]; rfl, ?_⟩
    have hname : ∀ entry : TableColumn,
        (if entry.name = column then entry.redefine column definition params else entry).name =
          entry.name := by
      intro entry
      split
      next hcolumn => exact TableColumn.name_redefine hcolumn definition params
      · rfl
    rw [modify_eq_map hnodup]
    change ((table.entries.map fun entry => if entry.name = column then
      entry.redefine column definition params else entry).find? (·.name = name)) = _
    simp only [find?, List.find?_map, Function.comp_def, hname]
    refine Option.map_congr fun entry hfound => ?_
    have hfound : entry.name = name := by simpa using List.find?_some hfound
    rw [hfound]

theorem find?_dropColumn (hnodup : table.columnNames.Nodup) {column : String}
    (hdrop : table.dropColumn column = .ok next) (name : String) :
    next.find? name = if name = column then none else table.find? name := by
  rw [dropColumn] at hdrop
  split at hdrop
  · cases hdrop
  · cases hdrop
    have hentries : table.entries.eraseP (·.name = column) =
        table.entries.filter (·.name ≠ column) := eraseP_eq_filter hnodup column
    simp only [find?, hentries, List.find?_filter]
    split
    next hname => simp [hname]
    next hname =>
      congr 1
      funext entry
      by_cases hentry : entry.name = name
      · simp [hentry, hname]
      · simp [hentry]

/-- In a renaming the entry of the old name is found under the new one, which no
entry had. -/
theorem find?_map_rename (old : String) {new : String} {entries : List TableColumn}
    (hfree : ∀ entry ∈ entries, entry.name ≠ new) (name : String) :
    (entries.map fun entry => if entry.name = old then entry.rename new else entry).find?
        (·.name = name) =
      if name = new then (entries.find? (·.name = old)).map (·.rename new)
      else if name = old then none else entries.find? (·.name = name) := by
  have hrenamed : ∀ entry : TableColumn, (entry.rename new).name = new := fun _ => rfl
  induction entries with
  | nil => simp
  | cons entry rest ih =>
      rw [List.forall_mem_cons] at hfree
      rw [List.map_cons]
      by_cases hentry : entry.name = old
      · rw [if_pos hentry]
        by_cases hname : name = new
        · rw [List.find?_cons_of_pos (by simp [hrenamed, hname]),
            List.find?_cons_of_pos (by simpa using hentry), if_pos hname, Option.map_some]
        · rw [List.find?_cons_of_neg (by simpa [hrenamed] using Ne.symm hname), ih hfree.2,
            if_neg hname, if_neg hname]
          by_cases hold : name = old
          · rw [if_pos hold, if_pos hold]
          · rw [if_neg hold, if_neg hold,
              List.find?_cons_of_neg (by simpa [hentry] using Ne.symm hold)]
      · rw [if_neg hentry, List.find?_cons, List.find?_cons, List.find?_cons, ih hfree.2]
        grind

theorem find?_renameColumn (hnodup : table.columnNames.Nodup) {old new : String}
    (hrename : table.renameColumn old new = .ok next) :
    ∃ moved, table.find? old = some moved ∧ table.find? new = none ∧
      ∀ name, next.find? name =
        if name = new then some (moved.rename new)
        else if name = old then none else table.find? name := by
  rw [renameColumn] at hrename
  split at hrename
  · cases hrename
  next hfree =>
    split at hrename
    · cases hrename
    next moved hmoved =>
      cases hrename
      refine ⟨moved, hmoved, hfree, fun name => ?_⟩
      have hother : ∀ entry ∈ table.entries, entry.name ≠ new := by
        simpa [find?] using hfree
      have hfind := find?_map_rename old hother name
      change _ = if name = new then (table.find? old).map _ else _ at hfind
      rw [hmoved] at hfind
      rw [modify_eq_map hnodup]
      exact hfind

/-! ## The two ways of keeping notes agree -/

theorem notes_addColumn {column : Column} {params : Option CopyParams}
    (hadd : table.addColumn column params = .ok next) :
    next.notes = table.notes.record (.addColumn column params) := by
  obtain ⟨hfree, hfind⟩ := find?_addColumn hadd
  ext name : 2
  all_goals
    by_cases hname : name = column.name
    · subst hname
      cases params <;>
        simp [notes, ColumnNotes.record, hfind, hfree, TableColumn.renamedFrom?,
          TableColumn.isAdded]
    · cases params <;> simp [notes, ColumnNotes.record, hfind, hname]

theorem notes_changeColumn (hnodup : table.columnNames.Nodup) {column : String}
    {definition : Option Column} {params : Option CopyParams}
    (hchange : table.changeColumn column definition params = .ok next) :
    next.notes = table.notes.record (.changeColumn column definition params) := by
  have hfind := fun name => (find?_changeColumn hnodup hchange name).2
  obtain ⟨changed, hchanged⟩ :=
    Option.isSome_iff_exists.mp (find?_changeColumn hnodup hchange column).1
  ext name : 2
  all_goals
    by_cases hname : name = column
    · subst hname
      cases params <;>
        simp [notes, ColumnNotes.record, hfind, hchanged, TableColumn.redefine,
          TableColumn.renamedFrom?, TableColumn.isAdded]
    · cases params <;> simp [notes, ColumnNotes.record, hfind, hname]

theorem notes_dropColumn (hnodup : table.columnNames.Nodup) {column : String}
    (hdrop : table.dropColumn column = .ok next) :
    next.notes = table.notes.record (.dropColumn column) := by
  have hfind := find?_dropColumn hnodup hdrop
  ext name : 2
  all_goals
    by_cases hname : name = column
    · simp [notes, ColumnNotes.record, hfind, hname]
    · simp [notes, ColumnNotes.record, hfind, hname]

theorem notes_renameColumn (hnodup : table.columnNames.Nodup) {old new : String}
    (hrename : table.renameColumn old new = .ok next) :
    next.notes = table.notes.record (.renameColumn old new) := by
  obtain ⟨moved, hmoved, hfree, hfind⟩ := find?_renameColumn hnodup hrename
  have hname : moved.name = old := by simpa [find?] using List.find?_some hmoved
  have hparams : next.notes.params = ColumnNotes.move old new table.notes.params := by
    funext name
    rw [ColumnNotes.move_apply old (by simp [notes, hfree])]
    simp only [notes, hfind, hmoved]
    split_ifs <;> rfl
  rw [ColumnNotes.record]
  by_cases hadded : moved.isAdded = true
  · have hrenamed := TableColumn.renamedFrom?_of_isAdded hadded
    rw [if_pos (by simp [notes, hmoved, hadded])]
    ext name : 2
    · rw [hparams]
    · simp only [notes, hfind]
      split_ifs with hnew hold
      · simp [hnew, hfree, TableColumn.renamedFrom?_rename, hadded]
      · simp [hold, hmoved, hrenamed]
      · rfl
    · simp only [notes, hfind, Function.update_apply]
      split_ifs
      · simp [TableColumn.isAdded_rename, hadded]
      · rfl
      · rfl
  · rw [if_neg (by simp [notes, hmoved, hadded])]
    ext name : 2
    · rw [hparams]
    · simp only [notes, hfind, Function.update_apply]
      split_ifs
      · simp [TableColumn.renamedFrom?_rename, hadded, hmoved, hname]
      · rfl
      · rfl
    · simp only [notes, hfind]
      split_ifs with hnew hold
      · simp [hnew, hfree, TableColumn.isAdded_rename, hadded]
      · simp [hold, hmoved, hadded]
      · rfl

/-- The notes after a change of every entry that keeps the names. -/
theorem notes_map (table : Table) (change : TableColumn → TableColumn)
    (hname : ∀ entry, (change entry).name = entry.name) (name : String) :
    (⟨name, table.entries.map change⟩ : Table).notes =
      ⟨fun column => (table.find? column).bind fun entry => (change entry).params,
        fun column => (table.find? column).bind fun entry => (change entry).renamedFrom?,
        fun column => (table.find? column).any fun entry => (change entry).isAdded⟩ := by
  have hfind : ∀ column, (⟨name, table.entries.map change⟩ : Table).find? column =
      (table.find? column).map change := by
    intro column
    simp only [find?, List.find?_map, Function.comp_def, hname]
  ext column : 2
  · simp only [notes, hfind, Option.bind_map, Function.comp_def]
  · simp only [notes, hfind, Option.bind_map, Function.comp_def]
  · simp only [notes, hfind, Option.any_map]

theorem notes_retarget (old new name : String) (table : Table) :
    ({ table with name := name }.retarget old new).notes = table.notes :=
  table.notes_map (fun entry => { entry with column := entry.column.retarget old new })
    (fun entry => (Column.hom_retarget old new).name_eq entry.column) name

theorem notes_settle (table : Table) : table.settle.notes = table.notes.settle := by
  refine (table.notes_map (fun entry => { entry with origin := .kept }) (fun _ => rfl) _).trans ?_
  ext column : 2
  · rfl
  · exact Option.bind_fun_none _
  · simp [ColumnNotes.settle, TableColumn.isAdded]

theorem notes_forgetParams (table : Table) :
    table.forgetParams.notes = table.notes.forgetParams := by
  refine (table.notes_map (fun entry => { entry with params := none }) (fun _ => rfl) _).trans ?_
  ext column : 2
  · exact Option.bind_fun_none _
  · rfl
  · rfl

end Table

namespace Registry

variable {registry : Registry} {table next : Table}

theorem notes_applyTo (hnodup : table.columnNames.Nodup) {action : Action}
    (happly : registry.applyTo table action = .ok next) :
    next.notes = table.notes.record action := by
  cases action with
  | addColumn column params => exact Table.notes_addColumn happly
  | changeColumn name definition params => exact Table.notes_changeColumn hnodup happly
  | dropColumn name => exact Table.notes_dropColumn hnodup happly
  | renameColumn old new => exact Table.notes_renameColumn hnodup happly
  | renameTable new =>
      rw [applyTo] at happly
      split at happly
      · cases happly
      · cases happly
        exact table.notes_retarget table.name new new
  | createTable columns =>
      cases happly
      rfl
  | dropTable =>
      cases happly
      rfl

/-- Whatever a batch does to a table, the entries carry the notes that are kept apart,
and each of these is about a column of the table. -/
theorem notes_applyAll (hnodup : table.columnNames.Nodup) {actions : List Action}
    (happly : registry.applyAll table actions = .ok next) :
    next.notes = actions.foldl ColumnNotes.record table.notes ∧
      (actions.foldl ColumnNotes.record table.notes).Within next.columnNames := by
  have hnotes : next.notes = actions.foldl ColumnNotes.record table.notes := by
    induction actions generalizing table with
    | nil =>
        cases happly
        rfl
    | cons action rest ih =>
        obtain ⟨middle, hmiddle, hrest⟩ := bind_eq_ok_iff.mp happly
        rw [List.foldl_cons, ← notes_applyTo hnodup hmiddle]
        exact ih (nodup_applyTo hnodup hmiddle) hrest
  exact ⟨hnotes, hnotes ▸ next.notes_within⟩

end Registry

end SchemaMigration
