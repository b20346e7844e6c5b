import SchemaMigration.Proofs.ColumnNotes
import SchemaMigration.Proofs.Refusals

/-!
# What holds between two commands

Whatever commands were given, accepted or refused, the tables have distinct names,
the columns of a table have distinct names, nothing is left of the history of a
column, and the copy parameters that wait belong to columns and fill none from
another.  Actions wait only for a migration that is open.
-/

namespace SchemaMigration

namespace Table

theorem mem_params {table : Table} {name : String} {params : CopyParams} :
    (name, params) ∈ table.params ↔
      ∃ entry ∈ table.entries, entry.name = name ∧ entry.params = some params := by
  simp only [Table.params, List.mem_filterMap, Option.map_eq_some_iff, Prod.mk.injEq]
  grind

theorem params_sublist (table : Table) :
    (table.params.map Prod.fst).Sublist table.columnNames := by
  rw [Table.params, columnNames]
  induction table.entries with
  | nil => exact List.Sublist.slnil
  | cons entry rest ih =>
      cases hparams : entry.params with
      | none => simpa [List.filterMap_cons, hparams] using ih.cons entry.name
      | some params => simpa [List.filterMap_cons, hparams] using ih

end Table

namespace Compilation

/-- What holds of a compilation between two commands. -/
structure Tracked (compilation : Compilation) : Prop where
  tables_nodup : (compilation.registry.tables.map (·.name)).Nodup
  columns_nodup : ∀ table ∈ compilation.registry.tables, table.columnNames.Nodup
  unrenamed : ∀ table ∈ compilation.registry.tables, table.renamedFrom = []
  unadded : ∀ table ∈ compilation.registry.tables, table.added = []
  params_sublist : ∀ table ∈ compilation.registry.tables,
    (table.params.map Prod.fst).Sublist table.columnNames
  params_unfilled : ∀ table ∈ compilation.registry.tables, ∀ pending ∈ table.params,
    pending.2.fillFrom = none
  notes_within : ∀ table ∈ compilation.registry.tables, ∀ actions outcome,
    compilation.registry.applyAll table actions = .ok outcome →
      (actions.foldl ColumnNotes.record table.notes).Within outcome.columnNames
  opened : compilation.queue.isEmpty = false → compilation.migrations ≠ []
  flush_ne : compilation.flush ≠ .error .noActiveMigration

theorem tracked_run (settings : Settings) (commands : List Command) :
    ((new settings).run commands).Tracked := by
  have hcoherent := coherent_run settings commands
  have hsettled := settled_run settings commands
  exact {
    tables_nodup := hcoherent.distinct
    columns_nodup := fun table hmem => (hsettled table hmem).nodup
    unrenamed := by
      intro table hmem
      rw [Table.renamedFrom, List.filterMap_eq_nil_iff]
      intro entry hentry
      rw [(hsettled table hmem).kept entry hentry]
    unadded := by
      intro table hmem
      rw [Table.added, List.map_eq_nil_iff, List.filter_eq_nil_iff]
      intro entry hentry
      rw [(hsettled table hmem).kept entry hentry]
      decide
    params_sublist := fun table _ => table.params_sublist
    params_unfilled := by
      rintro table hmem ⟨name, params⟩ hpending
      obtain ⟨entry, hentry, -, hparams⟩ := Table.mem_params.mp hpending
      simpa [TableColumn.fillFrom?, hparams] using (hsettled table hmem).unfilled entry hentry
    notes_within := fun table hmem actions outcome happly =>
      (Registry.notes_applyAll (hsettled table hmem).nodup happly).2
    opened := by
      intro hwaiting
      exact hcoherent.opened (by simpa [Queue.isEmpty] using hwaiting)
    flush_ne := by
      intro hflush
      cases kind_of_flush hcoherent.opened hflush }

end Compilation

end SchemaMigration
