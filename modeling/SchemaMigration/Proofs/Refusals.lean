import SchemaMigration.Proofs.Runs

/-!
# Why planning is refused

With a migration open, a flush is refused only for what the registry and its tables
hold: a table or a column that is missing, or one that is there already.  The engine
never is the reason, because what it lacks is rebuilt.
-/

namespace SchemaMigration

namespace Table

theorem kind_of_ofColumns {name : String} {columns : List Column} {error : MigrationError}
    (hcolumns : ofColumns name columns = .error error) : error.kind = .schemaConflict := by
  rw [ofColumns] at hcolumns
  split at hcolumns <;> cases hcolumns
  rfl

end Table

namespace Registry

variable {registry : Registry} {table : Table} {error : MigrationError}

/-- An action is refused only for what the registry and the table hold. -/
theorem kind_of_applyTo {action : Action}
    (happly : registry.applyTo table action = .error error) :
    error.kind = .schemaConflict := by
  cases action with
  | addColumn column params =>
      rw [applyTo, Table.addColumn] at happly
      split at happly <;> cases happly
      rfl
  | changeColumn name definition params =>
      rw [applyTo, Table.changeColumn] at happly
      split at happly <;> cases happly
      rfl
  | dropColumn name =>
      rw [applyTo, Table.dropColumn] at happly
      split at happly <;> cases happly
      rfl
  | renameColumn old new =>
      rw [applyTo, Table.renameColumn] at happly
      split at happly
      · cases happly
        rfl
      · split at happly <;> cases happly
        rfl
  | renameTable new =>
      rw [applyTo] at happly
      split at happly <;> cases happly
      rfl
  | createTable columns => cases happly
  | dropTable => cases happly

theorem kind_of_applyAll {actions : List Action}
    (happly : registry.applyAll table actions = .error error) :
    error.kind = .schemaConflict := by
  obtain ⟨state, action, -, hstep⟩ := exists_of_foldlM_error happly
  exact kind_of_applyTo hstep

theorem kind_of_insert (hinsert : registry.insert table = .error error) :
    error.kind = .schemaConflict := by
  rw [insert] at hinsert
  split at hinsert <;> cases hinsert
  rfl

theorem kind_of_remove {name : String} (hremove : registry.remove name = .error error) :
    error.kind = .schemaConflict := by
  rw [remove] at hremove
  split at hremove <;> cases hremove
  rfl

theorem kind_of_replace {name : String} (hreplace : registry.replace name table = .error error) :
    error.kind = .schemaConflict := by
  rw [replace] at hreplace
  split at hreplace
  · cases hreplace
    rfl
  · split at hreplace
    · cases hreplace
    · split at hreplace <;> cases hreplace
      rfl

end Registry

namespace Planner

variable {planner : Planner} {registry : Registry} {source : String} {error : MigrationError}

theorem planAlteration_eq_error {stored : Table} {actions : List Action}
    (hfind : registry.find? source = some stored)
    (happly : registry.applyAll stored actions = .error error) :
    planner.planAlteration registry source actions = .error error := by
  rw [planAlteration]
  simp [hfind, happly, bind, Except.bind]

theorem kind_of_planAlteration {actions : List Action} (halters : Segment.Alters actions)
    (hplan : planner.planAlteration registry source actions = .error error) :
    error.kind = .schemaConflict := by
  cases hfind : registry.find? source with
  | none =>
      rw [planAlteration, hfind] at hplan
      cases hplan
      rfl
  | some stored =>
      cases happly : registry.applyAll stored actions with
      | error conflict =>
          rw [planAlteration_eq_error hfind happly] at hplan
          cases hplan
          exact Registry.kind_of_applyAll happly
      | ok target =>
          obtain ⟨planned, hplanned⟩ := exists_planAlteration planner halters hfind happly
          rw [hplan] at hplanned
          cases hplanned

theorem kind_of_planCreation {columns : List Column}
    (hplan : planner.planCreation registry source columns = .error error) :
    error.kind = .schemaConflict := by
  rw [planCreation] at hplan
  rcases bind_eq_error_iff.mp hplan with hcolumns | ⟨table, -, hplan⟩
  · exact Table.kind_of_ofColumns hcolumns
  · split at hplan
    · split at hplan
      · rcases bind_eq_error_iff.mp hplan with hremove | ⟨freed, -, hplan⟩
        · exact Registry.kind_of_remove hremove
        · rcases bind_eq_error_iff.mp hplan with hinsert | ⟨next, -, hplan⟩
          · exact Registry.kind_of_insert hinsert
          · cases hplan
      · cases hplan
        rfl
    · rcases bind_eq_error_iff.mp hplan with hinsert | ⟨next, -, hplan⟩
      · exact Registry.kind_of_insert hinsert
      · cases hplan

theorem kind_of_planSegment {segment : Segment} (hwell : segment.WellFormed)
    (hplan : planner.planSegment registry source segment = .error error) :
    error.kind = .schemaConflict := by
  cases segment with
  | alter actions => exact kind_of_planAlteration hwell hplan
  | create columns => exact kind_of_planCreation hplan
  | drop =>
      rcases bind_eq_error_iff.mp hplan with hremove | ⟨next, -, hplan⟩
      · exact Registry.kind_of_remove hremove
      · cases hplan

theorem kind_of_plan {actions : List Action}
    (hplan : planner.plan registry source actions = .error error) :
    error.kind = .schemaConflict := by
  obtain ⟨planned, segment, hmem, hstep⟩ := exists_of_foldlM_error hplan
  rcases bind_eq_error_iff.mp hstep with hsegment | ⟨next, -, hstep⟩
  · exact kind_of_planSegment (Segment.wellFormed_cut actions segment hmem) hsegment
  · cases hstep

end Planner

namespace Compilation

theorem kind_of_flush {compilation : Compilation} {error : MigrationError}
    (hopen : compilation.queue.batches ≠ [] → compilation.migrations ≠ [])
    (hflush : compilation.flush = .error error) : error.kind = .schemaConflict := by
  cases hplan : planBatches compilation.planner (compilation.registry, [])
      compilation.queue.batches with
  | ok planned =>
      obtain ⟨next, hnext⟩ := exists_flush hopen hplan
      rw [hflush] at hnext
      cases hnext
  | error conflict =>
      have hsame : conflict = error := by
        rw [flush_eq] at hflush
        split at hflush
        · cases hflush
        · rw [hplan] at hflush
          exact Except.error.inj hflush
      subst hsame
      obtain ⟨planned, batch, -, hstep⟩ := exists_of_foldlM_error hplan
      rcases bind_eq_error_iff.mp hstep with hbatch | ⟨next, -, hstep⟩
      · exact Planner.kind_of_plan hbatch
      · cases hstep

end Compilation

end SchemaMigration
