import SchemaMigration.Command
import SchemaMigration.Proofs.Results

/-!
# Operations that leave nothing behind when they fail

An operation that fails may leave a compilation half changed behind.  None of the
operations on compilations does: each of them fails only as long as it has written
nothing.  So what it does is told by its outcome alone, and a refused command leaves the
compilation as it found it.
-/

namespace SchemaMigration

namespace CompileM

variable {α β : Type} {operation : CompileM α} {next : α → CompileM β}
  {compilation : Compilation}

/-! ## Composed operations -/

/-- What follows an operation is done with its answer to what it leaves behind. -/
theorem perform_bind (operation : CompileM α) (next : α → CompileM β)
    (compilation : Compilation) :
    (operation >>= next).perform compilation =
      match operation.perform compilation with
      | (.ok answer, reached) => (next answer).perform reached
      | (.error error, left) => (.error error, left) := by
  change (match operation.perform compilation with
    | (result, reached) => (ExceptT.bindCont next result).run reached) = _
  rcases operation.perform compilation with ⟨_ | answer, reached⟩ <;> rfl

theorem attempt_bind (operation : CompileM α) (next : α → CompileM β)
    (compilation : Compilation) :
    (operation >>= next).attempt compilation =
      operation.attempt compilation >>= fun reached => (next reached.1).attempt reached.2 := by
  rw [attempt, attempt, perform_bind]
  rcases operation.perform compilation with ⟨_ | answer, reached⟩ <;> rfl

/-- An operation that only changes a compilation hands on what it leaves behind. -/
theorem attempt_done (operation : CompileM Unit) (answer : β) (compilation : Compilation) :
    (operation >>= fun _ => pure answer).attempt compilation =
      (operation.attempt compilation).map (·.2) >>= fun reached => pure (answer, reached) := by
  rw [attempt_bind]
  cases operation.attempt compilation <;> rfl

/-! ## Failing before anything is written -/

/-- Where the operation fails, it leaves behind what it found. -/
def Atomic (operation : CompileM α) : Prop :=
  ∀ compilation error left, operation.perform compilation = (.error error, left) →
    left = compilation

/-- An atomic operation is told by its outcome. -/
theorem Atomic.perform_eq (hatomic : operation.Atomic) (compilation : Compilation) :
    operation.perform compilation =
      match operation.attempt compilation with
      | .ok (answer, reached) => (.ok answer, reached)
      | .error error => (.error error, compilation) := by
  rw [attempt]
  rcases hperform : operation.perform compilation with ⟨error | answer, left⟩
  · rw [hatomic compilation error left hperform]
  · rfl

theorem attempt_of_failed {error : MigrationError} {left : Compilation}
    (hperform : operation.perform compilation = (.error error, left)) :
    operation.attempt compilation = .error error := by
  rw [attempt, hperform]

/-- An atomic operation may be followed by what leaves behind, where it fails, what the
whole has found. -/
theorem Atomic.bind (hatomic : operation.Atomic)
    (hnext : ∀ compilation answer reached error left,
      operation.attempt compilation = .ok (answer, reached) →
        (next answer).perform reached = (.error error, left) → left = compilation) :
    (operation >>= next).Atomic := by
  intro compilation error left hperform
  rw [perform_bind, hatomic.perform_eq] at hperform
  cases hattempt : operation.attempt compilation with
  | error error =>
      rw [hattempt] at hperform
      cases hperform
      rfl
  | ok result =>
      rw [hattempt] at hperform
      exact hnext compilation result.1 result.2 error left hattempt hperform

/-- What never fails may follow. -/
theorem Atomic.answer (hatomic : operation.Atomic) (answer : α → β) :
    Atomic (operation >>= fun found => pure (answer found)) :=
  hatomic.bind fun _ _ _ _ _ _ hfailed => by cases hfailed

theorem atomic_pure (answer : α) : (pure answer : CompileM α).Atomic :=
  fun _ _ _ hperform => by cases hperform

theorem atomic_throw (error : MigrationError) : (throw error : CompileM α).Atomic :=
  fun _ _ _ hperform => by
    cases hperform
    rfl

theorem atomic_set (compilation : Compilation) : (set compilation : CompileM Unit).Atomic :=
  fun _ _ _ hperform => by cases hperform

/-- What only reads may stand in front. -/
theorem atomic_get_bind {next : Compilation → CompileM α}
    (hnext : ∀ compilation, (next compilation).Atomic) :
    Atomic (get >>= next) :=
  fun compilation error left hperform => hnext compilation compilation error left hperform

theorem atomic_ofExcept_bind {computed : Except MigrationError α}
    (hnext : ∀ answer, (next answer).Atomic) : Atomic (ofExcept computed >>= next) := by
  cases computed with
  | error error => exact atomic_throw error
  | ok answer => exact hnext answer

end CompileM

/-! ## The operations one by one -/

namespace Compilation

theorem appendSteps_eq (compilation : Compilation) (steps : List Step) :
    compilation.appendSteps steps =
      match compilation.migrations.getLast? with
      | none => .error .noActiveMigration
      | some current =>
          .ok { compilation with
            migrations := compilation.migrations.dropLast ++
              [{ current with steps := current.steps ++ steps }] } := by
  rw [appendSteps, CompileM.appendSteps, CompileM.attempt_bind]
  change Except.map _ (CompileM.attempt _ compilation) = _
  cases compilation.migrations.getLast? <;> rfl

theorem flush_eq (compilation : Compilation) :
    compilation.flush =
      (if compilation.queue.isEmpty then .ok compilation
      else do
        let (registry, statements) ←
          planBatches compilation.planner (compilation.registry, []) compilation.queue.batches
        let compilation ← compilation.appendSteps (statements.map Step.schema)
        pure { compilation with registry, queue := .empty }) := by
  rw [flush, CompileM.flush, CompileM.attempt_bind]
  change Except.map _ (CompileM.attempt _ compilation) = _
  split
  · rfl
  · rw [CompileM.attempt_bind]
    cases planBatches compilation.planner (compilation.registry, []) compilation.queue.batches with
    | error error => rfl
    | ok planned =>
        change Except.map _ (CompileM.attempt _ compilation) = _
        rw [CompileM.attempt_bind]
        change _ = (Except.map _ _) >>= _
        cases (CompileM.appendSteps (planned.2.map Step.schema)).attempt compilation <;> rfl

theorem openMigration_eq (compilation : Compilation) :
    compilation.openMigration = (do
      let compilation ← compilation.flush
      let id := compilation.nextId
      let opened : Migration :=
        ⟨id, [.record compilation.settings.migrationTable id compilation.settings.appVersion]⟩
      pure (id, { compilation with migrations := compilation.migrations ++ [opened] })) := by
  rw [openMigration, CompileM.openMigration, CompileM.attempt_bind, flush]
  cases CompileM.flush.attempt compilation <;> rfl

theorem enqueue_eq (compilation : Compilation) (table : String) (action : Action) :
    compilation.enqueue table action =
      if compilation.migrations.isEmpty then .error .noActiveMigration
      else .ok { compilation with queue := compilation.queue.push table action } := by
  rw [enqueue, CompileM.enqueue, CompileM.attempt_bind]
  change Except.map _ (CompileM.attempt _ compilation) = _
  split <;> rfl

theorem addStep_eq (compilation : Compilation) (step : Step) :
    compilation.addStep step =
      if compilation.migrations.isEmpty then .error .noActiveMigration
      else compilation.flush >>= fun flushed => flushed.appendSteps [step] := by
  rw [addStep, CompileM.addStep, CompileM.attempt_bind]
  change Except.map _ (CompileM.attempt _ compilation) = _
  split
  · rfl
  · rw [CompileM.attempt_bind, flush]
    cases CompileM.flush.attempt compilation <;> rfl

theorem steps_eq (compilation : Compilation) (applied : Option HistoryRecord) :
    compilation.steps applied = (do
      let compilation ← compilation.flush
      pure (compilation.delta (latestId compilation.settings applied), compilation)) := by
  rw [steps, CompileM.steps, CompileM.attempt_bind, flush]
  cases CompileM.flush.attempt compilation <;> rfl

theorem rowTypes_eq (compilation : Compilation) :
    compilation.rowTypes = (do
      let compilation ← compilation.flush
      pure (RowTypes.document compilation.registry, compilation)) := by
  rw [rowTypes, CompileM.rowTypes, CompileM.attempt_bind, flush]
  cases CompileM.flush.attempt compilation <;> rfl

end Compilation

namespace CompileM

theorem atomic_appendSteps (steps : List Step) : (appendSteps steps).Atomic :=
  atomic_get_bind fun compilation => by
    split
    · exact atomic_throw _
    · exact atomic_set _

theorem atomic_flush : flush.Atomic :=
  atomic_get_bind fun compilation => by
    split
    · exact atomic_pure _
    · refine atomic_ofExcept_bind fun planned => (atomic_appendSteps _).bind ?_
      intro _ _ _ _ _ _ hfailed
      cases hfailed

theorem atomic_openMigration : openMigration.Atomic := by
  refine atomic_flush.bind ?_
  intro _ _ _ _ _ _ hfailed
  cases hfailed

theorem atomic_enqueue (table : String) (action : Action) : (enqueue table action).Atomic :=
  atomic_get_bind fun compilation => by
    split
    · exact atomic_throw _
    · exact atomic_set _

theorem migrations_of_failed {reached left : Compilation} {steps : List Step}
    {error : MigrationError}
    (hfailed : (appendSteps steps).perform reached = (.error error, left)) :
    reached.migrations = [] := by
  have herror : reached.appendSteps steps = .error error := by
    rw [Compilation.appendSteps, attempt_of_failed hfailed]
    rfl
  rw [Compilation.appendSteps_eq] at herror
  split at herror
  next hnone => exact List.getLast?_eq_none_iff.mp hnone
  · cases herror

/-- A flush that compiles something has a migration to append to. -/
theorem atomic_flush_appendSteps (steps : List Step) :
    Atomic (flush >>= fun _ => appendSteps steps) := by
  refine atomic_flush.bind ?_
  intro compilation _ reached error left hattempt hfailed
  have hflush : compilation.flush = .ok reached := by
    rw [Compilation.flush, hattempt]
    rfl
  rw [Compilation.flush_eq] at hflush
  split at hflush
  · cases hflush
    exact atomic_appendSteps steps compilation error left hfailed
  · obtain ⟨planned, -, hflush⟩ := bind_eq_ok_iff.mp hflush
    obtain ⟨appended, happend, hnext⟩ := bind_eq_ok_iff.mp hflush
    rw [Compilation.appendSteps_eq] at happend
    split at happend
    · cases happend
    · cases happend
      cases hnext
      have hclosed := migrations_of_failed hfailed
      simp at hclosed

theorem atomic_addStep (step : Step) : (addStep step).Atomic :=
  atomic_get_bind fun compilation => by
    split
    · exact atomic_throw _
    · exact atomic_flush_appendSteps [step]

theorem atomic_steps (applied : Option HistoryRecord) : (steps applied).Atomic :=
  atomic_flush.bind fun _ _ _ _ _ _ hfailed => by cases hfailed

theorem atomic_rowTypes : rowTypes.Atomic :=
  atomic_flush.bind fun _ _ _ _ _ _ hfailed => by cases hfailed

end CompileM

namespace Command

theorem atomic_execute (command : Command) : command.execute.Atomic := by
  cases command with
  | start => exact CompileM.atomic_openMigration.answer _
  | enqueue table action => exact (CompileM.atomic_enqueue table action).answer _
  | sql query values => exact (CompileM.atomic_addStep _).answer _
  | script label => exact (CompileM.atomic_addStep _).answer _
  | asyncScript label => exact (CompileM.atomic_addStep _).answer _
  | flush => exact CompileM.atomic_flush.answer _
  | steps applied => exact (CompileM.atomic_steps applied).answer _
  | rowTypes => exact CompileM.atomic_rowTypes.answer _

/-- What a command does, told by the operations on compilations. -/
theorem attempt_eq (compilation : Compilation) (command : Command) :
    command.attempt compilation =
      (match command with
      | start => do
          let (id, next) ← compilation.openMigration
          pure (.opened id, next)
      | enqueue table action => do
          let next ← compilation.enqueue table action
          pure (.done, next)
      | sql query values => do
          let next ← compilation.addStep (.sql query values)
          pure (.done, next)
      | script label => do
          let next ← compilation.addStep (.script label)
          pure (.done, next)
      | asyncScript label => do
          let next ← compilation.addStep (.asyncScript label)
          pure (.done, next)
      | flush => do
          let next ← compilation.flush
          pure (.done, next)
      | steps applied => do
          let (delta, next) ← compilation.steps applied
          pure (.steps delta, next)
      | rowTypes => do
          let (document, next) ← compilation.rowTypes
          pure (.document document, next)) := by
  cases command with
  | start => exact CompileM.attempt_bind ..
  | enqueue table action => exact CompileM.attempt_done ..
  | sql query values => exact CompileM.attempt_done ..
  | script label => exact CompileM.attempt_done ..
  | asyncScript label => exact CompileM.attempt_done ..
  | flush => exact CompileM.attempt_done ..
  | steps applied => exact CompileM.attempt_bind ..
  | rowTypes => exact CompileM.attempt_bind ..

/-- A refused command leaves the compilation as it was. -/
theorem perform_eq (compilation : Compilation) (command : Command) :
    command.perform compilation =
      match command.attempt compilation with
      | .ok result => result
      | .error error => (.refused error, compilation) := by
  rw [perform, attempt, command.atomic_execute.perform_eq]
  cases command.execute.attempt compilation <;> rfl

end Command

end SchemaMigration
