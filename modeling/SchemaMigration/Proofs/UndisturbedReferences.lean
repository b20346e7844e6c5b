import SchemaMigration.Proofs.ReferenceOrder

/-!
# Queues that disturb no reference

What a declaration may do to references when it overtakes others can be read off
the declarations themselves.  If no column that is declared references a table
that is renamed in the same queue, then a flush leaves every reference as the
order of declaration has it.
-/

namespace SchemaMigration

namespace Action

/-- A column that an action leaves points where a column pointed that was there
or that the action brought. -/
theorem exists_target?_eq {action : Action} {columns changed : List Column}
    (hchange : action.onColumns columns = some changed) {column : Column}
    (hmem : column ∈ changed) :
    ∃ source, (source ∈ columns ∨ source ∈ action.columns) ∧
      column.target? = source.target? := by
  cases action with
  | addColumn added params =>
      obtain ⟨-, rfl⟩ := Columns.add_cases hchange
      exact ⟨column, List.mem_append.mp hmem, rfl⟩
  | changeColumn name definition params =>
      obtain ⟨-, rfl⟩ := Columns.modify_cases hchange
      rcases Columns.mem_modify hmem with hkept | ⟨before, hbefore, rfl⟩
      · exact ⟨column, Or.inl hkept, rfl⟩
      · cases definition with
        | none => exact ⟨before, Or.inl hbefore, rfl⟩
        | some new => exact ⟨new, Or.inr (List.mem_singleton.mpr rfl), rfl⟩
  | dropColumn name =>
      obtain ⟨-, rfl⟩ := Columns.drop_cases hchange
      exact ⟨column, Or.inl (List.mem_of_mem_eraseP hmem), rfl⟩
  | renameColumn old new =>
      obtain ⟨-, hmodify⟩ := Columns.rename_cases hchange
      obtain ⟨-, rfl⟩ := Columns.modify_cases hmodify
      rcases Columns.mem_modify hmem with hkept | ⟨before, hbefore, rfl⟩
      · exact ⟨column, Or.inl hkept, rfl⟩
      · exact ⟨before, Or.inl hbefore, rfl⟩
  | createTable _ | dropTable | renameTable _ =>
      cases hchange
      exact ⟨column, Or.inl hmem, rfl⟩

end Action

namespace Schema

variable {replace : Bool} {schema next : Schema} {name : String}

theorem unreferenced_set (hschema : schema.Unreferenced name) (table : String)
    {columns : Option (List Column)}
    (hcolumns : ∀ list, columns = some list → ∀ column ∈ list, column.target? ≠ some name) :
    Unreferenced name (schema.set table columns) := by
  intro other list hlist column hmem
  by_cases hother : other = table
  · subst hother
    rw [Catalog.set_self] at hlist
    exact hcolumns list hlist column hmem
  · rw [Catalog.set_of_ne _ _ hother] at hlist
    exact hschema other list hlist column hmem

theorem unreferenced_retarget {old new : String} (hnew : new ≠ name)
    (hschema : old = name ∨ schema.Unreferenced name) :
    Unreferenced name (schema.mapColumns (Column.retarget old new)) := by
  intro table list hlist column hmem
  obtain ⟨columns, hcolumns, rfl⟩ := Option.map_eq_some_iff.mp hlist
  obtain ⟨before, hbefore, rfl⟩ := List.mem_map.mp hmem
  rw [Column.target?_retarget]
  split
  · simpa using hnew
  next hkept =>
    rcases hschema with rfl | hschema
    · exact hkept
    · exact hschema table columns hcolumns before hbefore

/-- A declaration on other tables that brings no reference to a name leaves the
name unreferenced. -/
theorem unreferenced_apply {declaration : Declaration} (hname : name ∉ declaration.names)
    (hbrought : ∀ column ∈ declaration.action.columns, column.target? ≠ some name)
    (hschema : schema.Unreferenced name)
    (happly : apply replace declaration schema = some next) : next.Unreferenced name := by
  obtain ⟨table, action⟩ := declaration
  by_cases hcolumn : action.isColumnChange = true
  · rw [apply_columnChange hcolumn] at happly
    obtain ⟨columns, changed, htable, hchange, rfl⟩ := Catalog.alter_cases happly
    apply unreferenced_set hschema
    intro list hlist column hmem
    cases hlist
    obtain ⟨source, hsource, htarget⟩ := Action.exists_target?_eq hchange hmem
    rw [htarget]
    rcases hsource with hheld | hnew
    · exact hschema table columns htable source hheld
    · exact hbrought source hnew
  · cases action with
    | createTable columns =>
        rw [apply_createTable] at happly
        split at happly
        · cases happly
          apply unreferenced_set hschema
          intro list hlist
          cases hlist
          exact hbrought
        · cases happly
    | dropTable =>
        rw [apply_dropTable] at happly
        split at happly
        · cases happly
          apply unreferenced_set hschema
          intro list hlist
          cases hlist
        · cases happly
    | renameTable new =>
        obtain ⟨columns, htable, rfl⟩ := exists_of_apply_renameTable happly
        have hnames : name ≠ table ∧ name ≠ new := by
          simpa [Declaration.names, Action.tableNames] using hname
        apply unreferenced_retarget hnames.2.symm
        refine Or.inr (unreferenced_set (unreferenced_set hschema table ?_) new ?_)
        · intro list hlist
          cases hlist
        · intro list hlist
          cases hlist
          exact hschema table columns htable
    | _ => exact absurd rfl hcolumn

theorem unreferenced_applyAll {declarations : List Declaration}
    (hname : ∀ declaration ∈ declarations, name ∉ declaration.names)
    (hbrought : ∀ declaration ∈ declarations, ∀ column ∈ declaration.action.columns,
      column.target? ≠ some name)
    (hschema : schema.Unreferenced name)
    (happly : applyAll replace declarations schema = some next) : next.Unreferenced name := by
  induction declarations generalizing schema with
  | nil =>
      cases happly
      exact hschema
  | cons first rest ih =>
      rw [List.forall_mem_cons] at hname hbrought
      rw [applyAll_cons] at happly
      obtain ⟨middle, hfirst, hrest⟩ := Option.bind_eq_some_iff.mp happly
      exact ih hname.2 hbrought.2 (unreferenced_apply hname.1 hbrought.1 hschema hfirst) hrest

/-- A renaming leaves no reference to the old name. -/
theorem unreferenced_of_renameTable {table new : String}
    (happly : apply replace ⟨table, .renameTable new⟩ schema = some next) :
    next.Unreferenced table := by
  have hmoved := ne_of_apply_renameTable happly
  obtain ⟨columns, -, rfl⟩ := exists_of_apply_renameTable happly
  exact unreferenced_retarget hmoved (Or.inl rfl)

end Schema

namespace Declaration

/-- No column that is declared references a table that is renamed. -/
def Undisturbed (declarations : List Declaration) : Prop :=
  ∀ moving ∈ declarations, moving.action.isRenameTable = true →
    ∀ other ∈ declarations, ∀ column ∈ other.action.columns,
      column.target? ≠ some moving.table

theorem followAll_of_unmentioned {declarations : List Declaration} {column : Column}
    (hcolumn : ∀ moving ∈ declarations, moving.action.isRenameTable = true →
      column.target? ≠ some moving.table) : followAll declarations column = column := by
  induction declarations with
  | nil => rfl
  | cons first rest ih =>
      rw [List.forall_mem_cons] at hcolumn
      have hfirst : first.follow column = column := by
        cases hrename : first.action.isRenameTable with
        | true =>
            obtain ⟨new, hnew⟩ := Action.isRenameTable_iff.mp hrename
            rw [follow_of_renameTable hnew]
            exact Column.retarget_of_ne new (hcolumn.1 hrename)
        | false => rw [follow_of_not_renameTable hrename, id_eq]
      have hcons : followAll (first :: rest) column = followAll rest (first.follow column) := rfl
      rw [hcons, hfirst, ih hcolumn.2]

end Declaration

namespace Queue

theorem mem_of_mem_overtaken {queue : Queue} {declaration other : Declaration}
    (hmem : other ∈ queue.overtaken declaration) : other ∈ queue.declarations := by
  obtain ⟨before, hbefore, -⟩ := queue.declarations_declare declaration
  rw [hbefore]
  exact List.mem_append_right before hmem

theorem mem_declare {queue : Queue} {declaration other : Declaration} :
    other ∈ (queue.declare declaration).declarations ↔
      other ∈ queue.declarations ∨ other = declaration := by
  obtain ⟨before, hbefore, hdeclared⟩ := queue.declarations_declare declaration
  rw [hbefore, hdeclared]
  simp only [List.mem_append, List.mem_cons]
  tauto

/-- A queue holds what was declared and nothing else. -/
theorem mem_declareAll {declarations : List Declaration} {other : Declaration} :
    other ∈ (empty.declareAll declarations).declarations ↔ other ∈ declarations := by
  induction declarations using List.reverseRecOn with
  | nil => rfl
  | append_singleton earlier last ih =>
      rw [declareAll_concat, mem_declare, ih, List.mem_append, List.mem_singleton]

end Queue

namespace Compilation

variable {compilation : Compilation} {earlier declarations : List Declaration}
  {last : Declaration}

theorem harmless_of_undisturbed (hcoherent : compilation.Coherent)
    (hopen : compilation.migrations ≠ []) (hempty : compilation.queue = .empty)
    (hundisturbed : Declaration.Undisturbed (earlier ++ [last])) :
    compilation.Harmless earlier last := by
  have hcovers := Queue.covers_declareAll hcoherent.covers earlier
  have hovertaken : ∀ other ∈ (compilation.queue.declareAll earlier).overtaken last,
      other ∈ earlier ++ [last] := by
    intro other hmem
    have hwaiting := Queue.mem_of_mem_overtaken hmem
    rw [hempty, Queue.mem_declareAll] at hwaiting
    exact List.mem_append_left [last] hwaiting
  have hlast : last ∈ earlier ++ [last] := by simp
  cases hrename : last.action.isRenameTable with
  | true =>
      rw [harmless_iff_of_renameTable hrename]
      intro flushed hflush
      have hnow := schema_flush_declareAll hcoherent hopen (earlier ++ [last])
      obtain ⟨before, -, hdeclared⟩ :=
        (compilation.queue.declareAll earlier).declarations_declare last
      rw [hflush, Queue.declareAll_concat, hdeclared, Schema.applyAll_append] at hnow
      obtain ⟨start, -, hstart⟩ := Option.bind_eq_some_iff.mp hnow.symm
      obtain ⟨moved, hmoved, hrest⟩ := Option.bind_eq_some_iff.mp hstart
      have hunreferenced : moved.Unreferenced last.table := by
        obtain ⟨new, hnew⟩ := Action.isRenameTable_iff.mp hrename
        obtain ⟨table, action⟩ := last
        subst hnew
        exact Schema.unreferenced_of_renameTable hmoved
      refine Schema.unreferenced_applyAll ?_ ?_ hunreferenced hrest
      · intro other hmem
        exact Queue.disjoint_overtaken hcovers last other hmem last.table last.table_mem_names
      · intro other hmem
        exact hundisturbed last hlast hrename other (hovertaken other hmem)
  | false =>
      rw [harmless_iff_of_not_renameTable hrename, declareAll_eq hopen]
      intro column hmem
      rw [Declaration.followAll_of_unmentioned]
      intro moving hmoving hmovingRename
      exact hundisturbed moving (hovertaken moving hmoving) hmovingRename last hlast column hmem

/-- A flush gives the schema of the order of declaration, references included, if
no column that was declared references a table that is renamed. -/
theorem flushesAsDeclared_of_undisturbed (settings : Settings) (commands : List Command)
    (hopen : ((new settings).run commands).migrations ≠ [])
    (hempty : ((new settings).run commands).queue = .empty)
    (hundisturbed : Declaration.Undisturbed declarations) :
    ((new settings).run commands).FlushesAsDeclared declarations := by
  have hcoherent := coherent_run settings commands
  generalize (new settings).run commands = compilation at *
  refine prefix_induction (flushesAsDeclared_nil hempty) ?_ declarations List.prefix_rfl
  intro earlier last hinitial hearlier
  apply flushesAsDeclared_concat hcoherent hopen hearlier
  apply harmless_of_undisturbed hcoherent hopen hempty
  intro moving hmoving hrename other hother
  exact hundisturbed moving (hinitial.subset hmoving) hrename other (hinitial.subset hother)

end Compilation

end SchemaMigration
