import SchemaMigration.Schema.Column
import SchemaMigration.Proofs.Catalog

/-!
# References of columns

A foreign column points to a table by name.  When the table is renamed the
column is redirected; nothing else about the column changes.
-/

namespace SchemaMigration

instance : Named Column where
  name := Column.name
  withName name column := { column with name }

namespace Column

/-- The column without its reference. -/
def bare (column : Column) : Column := { column with references := none }

theorem hom_id : Columns.Hom (id : Column → Column) := ⟨fun _ => rfl, fun _ _ => rfl⟩

theorem hom_bare : Columns.Hom Column.bare := ⟨fun _ => rfl, fun _ _ => rfl⟩

theorem retarget_of_target {old : String} (new : String) {column : Column}
    (htarget : column.target? = some old) :
    column.retarget old new = { column with references := some new } := by
  rw [target?] at htarget
  split at htarget
  next hforeign => simp [Column.retarget, hforeign, htarget]
  next => cases htarget

theorem retarget_of_ne {old : String} (new : String) {column : Column}
    (htarget : column.target? ≠ some old) : column.retarget old new = column := by
  rw [target?] at htarget
  split at htarget
  next hforeign => simp [Column.retarget, htarget]
  next hforeign => simp [Column.retarget, hforeign]

/-- A renaming redirects exactly the references to the old name. -/
theorem target?_retarget (old new : String) (column : Column) :
    (column.retarget old new).target? =
      if column.target? = some old then some new else column.target? := by
  by_cases htarget : column.target? = some old
  · have hforeign : column.isForeign = true := by
      by_contra hforeign
      simp [target?, hforeign] at htarget
    rw [retarget_of_target new htarget, if_pos htarget]
    exact if_pos hforeign
  · rw [retarget_of_ne new htarget, if_neg htarget]

theorem hom_retarget (old new : String) : Columns.Hom (Column.retarget old new) where
  name_eq column := by
    rw [Column.retarget]
    split <;> rfl
  withName_eq name column := by
    have hkept : (Named.withName name column).target? = column.target? := rfl
    by_cases htarget : column.target? = some old
    · rw [retarget_of_target new htarget, retarget_of_target new (hkept.trans htarget)]
      rfl
    · rw [retarget_of_ne new htarget, retarget_of_ne new (by rwa [hkept])]

@[simp]
theorem bare_retarget (old new : String) (column : Column) :
    (column.retarget old new).bare = column.bare := by
  rw [Column.retarget]
  split <;> rfl

theorem retarget_retarget (old new : String) (column : Column) :
    (column.retarget old new).retarget old new = column.retarget old new := by
  by_cases htarget : column.target? = some old
  · by_cases hsame : new = old
    · subst hsame
      have hkept : (column.retarget new new).target? = some new := by
        simp [target?_retarget, htarget]
      rw [retarget_of_target new hkept, retarget_of_target new htarget]
    · apply retarget_of_ne
      simp [target?_retarget, htarget, hsame]
  · rw [retarget_of_ne new htarget, retarget_of_ne new htarget]

/-- Renamings of different tables redirect a column in either order. -/
theorem retarget_comm {old new old' new' : String} (hold : old ≠ old') (hnew' : old ≠ new')
    (hnew : new ≠ old') (column : Column) :
    (column.retarget old' new').retarget old new =
      (column.retarget old new).retarget old' new' := by
  by_cases htarget : column.target? = some old
  · have hother : column.target? ≠ some old' := by simp [htarget, hold]
    rw [retarget_of_ne new' hother]
    refine (retarget_of_ne new' ?_).symm
    simp [target?_retarget, htarget, hnew]
  · rw [retarget_of_ne new htarget]
    apply retarget_of_ne
    rw [target?_retarget]
    split
    · simpa using hnew'.symm
    · exact htarget

end Column

end SchemaMigration
