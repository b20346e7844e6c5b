import SchemaMigration.Proofs.PlanCommands

/-!
# Plans as requests

A plan asks for migrations to be opened and for operations to be carried out, and its
compilation stops at the first request that is refused.  Operations are declared through
drafts, in which a changed column keeps its name.  Handing the same actions to the
compilation as they stand comes to the same, but for the name inside the definition of a
changed column, which nothing reads.
-/

namespace SchemaMigration

/-! ## The name inside a definition -/

namespace Action

/-- The action with the definition of a changed column under the column's own name. -/
def aligned : Action → Action
  | changeColumn name definition params =>
      changeColumn name (definition.map fun column => { column with name }) params
  | action => action

theorem tableNames_aligned (action : Action) (table : String) :
    action.aligned.tableNames table = action.tableNames table := by
  cases action <;> rfl

theorem isRenameTable_aligned (action : Action) :
    action.aligned.isRenameTable = action.isRenameTable := by
  cases action <;> rfl

end Action

/-- A change without a definition keeps every column's. -/
theorem Table.columns_of_changeColumn {table next : Table} {name : String}
    {params : Option CopyParams} (hchange : table.changeColumn name none params = .ok next) :
    next.columns = table.columns := by
  rw [changeColumn] at hchange
  split at hchange
  · cases hchange
  · cases hchange
    refine Columns.map_modify_of_keeps ?_ table.entries _
    exact fun _ => rfl

theorem Registry.applyTo_aligned (registry : Registry) (table : Table) (action : Action) :
    registry.applyTo table action.aligned = registry.applyTo table action := by
  cases action with
  | changeColumn name definition params => cases definition <;> rfl
  | _ => rfl

theorem Registry.applyAll_aligned (registry : Registry) (table : Table) (actions : List Action) :
    registry.applyAll table (actions.map Action.aligned) = registry.applyAll table actions := by
  rw [applyAll, List.foldlM_map, applyAll]
  simp only [applyTo_aligned]

/-- The segment with its definitions under the names of their columns. -/
def Segment.aligned : Segment → Segment
  | alter actions => alter (actions.map Action.aligned)
  | create columns => create columns
  | drop => drop

theorem Segment.cut_aligned (actions : List Action) :
    cut (actions.map Action.aligned) = (cut actions).map aligned := by
  have hprepend : ∀ (action : Action) (segments : List Segment),
      prepend action.aligned (segments.map aligned) = (prepend action segments).map aligned := by
    intro action segments
    cases segments with
    | nil => rfl
    | cons first rest => cases first <;> rfl
  induction actions with
  | nil => rfl
  | cons action rest ih =>
      by_cases hcolumn : action.isColumnChange = true
      · have haligned : action.aligned.isColumnChange = true := by cases action <;> exact hcolumn
        rw [List.map_cons, cut_cons haligned, cut_cons hcolumn, ih, hprepend]
      · cases action with
        | createTable columns => exact congrArg (create columns :: ·) ih
        | dropTable => exact congrArg (drop :: ·) ih
        | renameTable new => exact congrArg (alter [.renameTable new] :: ·) ih
        | _ => exact absurd rfl hcolumn

namespace Planner

variable (planner : Planner) (registry : Registry) (table : String)

theorem needsRebuild_aligned (stored : Table) (actions : List Action) :
    planner.needsRebuild registry stored (actions.map Action.aligned) =
      planner.needsRebuild registry stored actions := by
  have hforces : ∀ (reached : Table) (action : Action),
      planner.forcesRebuild reached action.aligned = planner.forcesRebuild reached action := by
    intro reached action
    cases action <;> rfl
  induction actions generalizing stored with
  | nil => rfl
  | cons action rest ih =>
      rw [List.map_cons, needsRebuild, firstForced?, needsRebuild, firstForced?, hforces,
        Registry.applyTo_aligned]
      split
      · rfl
      · cases registry.applyTo stored action with
        | error error => rfl
        | ok next => exact ih next

theorem mapM_direct_aligned (actions : List Action) :
    (actions.map Action.aligned).mapM (planner.direct table) =
      actions.mapM (planner.direct table) := by
  have hdirect : ∀ action : Action,
      planner.direct table action.aligned = planner.direct table action := by
    intro action
    cases action <;> rfl
  rw [List.mapM_map]
  exact congrArg (actions.mapM ·) (funext hdirect)

theorem planSegment_aligned (segment : Segment) :
    planner.planSegment registry table segment.aligned =
      planner.planSegment registry table segment := by
  cases segment with
  | alter actions =>
      simp only [planSegment, Segment.aligned, planAlteration, Registry.applyAll_aligned,
        needsRebuild_aligned, mapM_direct_aligned]
  | create columns => rfl
  | drop => rfl

/-- Nothing that is planned depends on the names inside definitions. -/
theorem plan_aligned (actions : List Action) :
    planner.plan registry table (actions.map Action.aligned) =
      planner.plan registry table actions := by
  rw [plan, Segment.cut_aligned, planSegments, List.foldlM_map, plan, planSegments]
  simp only [planSegment_aligned]

end Planner

/-! ## Waiting actions -/

/-- The batch with its definitions under the names of their columns. -/
def Batch.aligned (batch : Batch) : Batch :=
  { batch with actions := batch.actions.map Action.aligned }

theorem Batch.append_aligned (batch : Batch) (action : Action) :
    batch.aligned.append action.aligned = (batch.append action).aligned := by
  simp [append, aligned, Action.tableNames_aligned, Action.isRenameTable_aligned]

namespace Queue

/-- The queue with its definitions under the names of their columns. -/
def aligned (queue : Queue) : Queue := ⟨queue.batches.map Batch.aligned⟩

theorem join?_aligned (table : String) (action : Action) (batches : List Batch) :
    join? table action.aligned (batches.map Batch.aligned) =
      (join? table action batches).map (List.map Batch.aligned) := by
  induction batches with
  | nil => rfl
  | cons batch older ih =>
      have htouches : batch.aligned.touches (action.tableNames table) =
          batch.touches (action.tableNames table) := rfl
      rw [List.map_cons, join?, join?, Action.tableNames_aligned, htouches, ih,
        Batch.append_aligned]
      change (if (batch.isOpen && decide (batch.table = table)) = true then _ else _) = _
      split
      · rfl
      · split
        · rfl
        · rw [Option.map_map, Option.map_map]
          rfl

theorem push_aligned (queue : Queue) (table : String) (action : Action) :
    queue.aligned.push table action.aligned = (queue.push table action).aligned := by
  have hreverse : queue.aligned.batches.reverse = queue.batches.reverse.map Batch.aligned :=
    List.map_reverse.symm
  rw [push, push, hreverse, join?_aligned]
  cases join? table action queue.batches.reverse with
  | some joined => simp [aligned, List.map_reverse]
  | none => simp [aligned, Batch.single, Batch.aligned, Action.tableNames_aligned,
      Action.isRenameTable_aligned]

end Queue

namespace Compilation

/-- The compilation with the definitions that wait under the names of their columns. -/
def aligned (compilation : Compilation) : Compilation :=
  { compilation with queue := compilation.queue.aligned }

theorem planBatches_aligned (planner : Planner) (planned : Registry × List Statement)
    (batches : List Batch) :
    planBatches planner planned (batches.map Batch.aligned) =
      planBatches planner planned batches := by
  rw [planBatches, List.foldlM_map, planBatches]
  simp only [Batch.aligned, Planner.plan_aligned]

theorem flush_aligned (compilation : Compilation) :
    compilation.aligned.flush = compilation.flush.map aligned := by
  have hempty : compilation.aligned.queue.isEmpty = compilation.queue.isEmpty := List.isEmpty_map
  have hplan : planBatches compilation.aligned.planner (compilation.aligned.registry, [])
      compilation.aligned.queue.batches =
        planBatches compilation.planner (compilation.registry, []) compilation.queue.batches :=
    planBatches_aligned _ _ _
  rw [flush_eq, flush_eq, hempty, hplan]
  split
  · rfl
  · cases planBatches compilation.planner (compilation.registry, [])
        compilation.queue.batches with
    | error error => rfl
    | ok planned =>
        simp only [bind, Except.bind, appendSteps_eq, aligned]
        cases compilation.migrations.getLast? <;> rfl

theorem openMigration_aligned (compilation : Compilation) :
    compilation.aligned.openMigration.map (·.2) =
      (compilation.openMigration.map (·.2)).map aligned := by
  rw [openMigration_eq, openMigration_eq, flush_aligned]
  cases compilation.flush <;> rfl

theorem enqueue_aligned (compilation : Compilation) (table : String) (action : Action) :
    compilation.aligned.enqueue table action.aligned =
      (compilation.enqueue table action).map aligned := by
  have hempty : compilation.aligned.migrations.isEmpty = compilation.migrations.isEmpty := rfl
  rw [enqueue_eq, enqueue_eq, hempty]
  split
  · rfl
  · exact congrArg (fun queue => Except.ok { compilation with queue })
      (compilation.queue.push_aligned table action)

theorem addStep_aligned (compilation : Compilation) (step : Step) :
    compilation.aligned.addStep step = (compilation.addStep step).map aligned := by
  have hempty : compilation.aligned.migrations.isEmpty = compilation.migrations.isEmpty := rfl
  rw [addStep_eq, addStep_eq, hempty, flush_aligned]
  split
  · rfl
  · cases compilation.flush with
    | error error => rfl
    | ok flushed =>
        simp only [Except.map, bind, Except.bind, appendSteps_eq, aligned]
        cases flushed.migrations.getLast? <;> rfl

end Compilation

/-! ## Requests -/

namespace Operation

/-- Hands an operation to the compilation as it stands. -/
def handOver (compilation : Compilation) : Operation → Except MigrationError Compilation
  | createTable table columns => compilation.enqueue table (.createTable columns)
  | dropTable table => compilation.enqueue table .dropTable
  | renameTable table new => compilation.enqueue table (.renameTable new)
  | addColumn table column params => compilation.enqueue table (.addColumn column params)
  | changeColumn table name definition params =>
      compilation.enqueue table (.changeColumn name definition params)
  | dropColumn table name => compilation.enqueue table (.dropColumn name)
  | renameColumn table old new => compilation.enqueue table (.renameColumn old new)
  | sql query values => compilation.addStep (.sql query values)

/-- Declared through its drafts, an operation comes to what it comes to as it stands, but
for the name inside a definition. -/
theorem apply_aligned (compilation : Compilation) (operation : Operation) :
    operation.apply compilation.aligned =
      (operation.handOver compilation).map Compilation.aligned := by
  have hdeclared : ∀ (table : String) (action : Action),
      (Command.enqueue table action.aligned).accept compilation.aligned =
        (compilation.enqueue table action).map Compilation.aligned := by
    intro table action
    rw [Command.accept_enqueue, compilation.enqueue_aligned]
  rw [apply_eq_accept]
  cases operation with
  | createTable table columns => exact hdeclared table (.createTable columns)
  | dropTable table => exact hdeclared table .dropTable
  | renameTable table new => exact hdeclared table (.renameTable new)
  | addColumn table column params => exact hdeclared table (.addColumn column params)
  | changeColumn table name definition params =>
      exact hdeclared table (.changeColumn name definition params)
  | dropColumn table name => exact hdeclared table (.dropColumn name)
  | renameColumn table old new => exact hdeclared table (.renameColumn old new)
  | sql query values =>
      rw [command, Command.accept_of_step? rfl]
      exact compilation.addStep_aligned (.sql query values)

end Operation

/-- One thing that a plan asks for. -/
inductive Request
  | opening
  | change (operation : Operation)

/-- Grants a request, with `carry` to carry operations out. -/
def Request.grant (carry : Compilation → Operation → Except MigrationError Compilation)
    (compilation : Compilation) : Request → Except MigrationError Compilation
  | .opening => compilation.openMigration.map (·.2)
  | .change operation => carry compilation operation

theorem Request.grant_aligned (compilation : Compilation) (request : Request) :
    request.grant Operation.apply compilation.aligned =
      (request.grant Operation.handOver compilation).map Compilation.aligned := by
  cases request with
  | opening => exact compilation.openMigration_aligned
  | change operation => exact operation.apply_aligned compilation

namespace Plan

/-- What a plan asks for, in order. -/
def requests (plan : Plan) : List Request :=
  plan.migrations.flatMap fun migration =>
    .opening :: migration.operations.map .change

/-- Compiles a plan without drafts: each migration is opened, and each operation is handed
over as it stands. -/
def handOver (plan : Plan) (settings : Settings) : Except MigrationError Compilation :=
  plan.requests.foldlM (Request.grant Operation.handOver) (Compilation.new settings)

/-- The requests of a plan stop at a place, with `carry` to carry operations out. -/
def RefusedAt (carry : Compilation → Operation → Except MigrationError Compilation)
    (plan : Plan) (settings : Settings) (place : Nat) (error : MigrationError) : Prop :=
  StopsAt (Request.grant carry) (Compilation.new settings) plan.requests place error

/-- A plan is compiled by granting its requests one after another. -/
theorem compileWith_eq_grant (plan : Plan) (settings : Settings) :
    plan.compileWith settings =
      plan.requests.foldlM (Request.grant Operation.apply) (Compilation.new settings) := by
  rw [compileWith, requests]
  generalize Compilation.new settings = start
  induction plan.migrations generalizing start with
  | nil => rfl
  | cons migration rest ih =>
      rw [List.foldlM_cons, List.flatMap_cons, List.foldlM_append]
      have hoperations : ∀ opened : Compilation,
          migration.operations.foldlM Operation.apply opened =
            (migration.operations.map Request.change).foldlM
              (Request.grant Operation.apply) opened := by
        intro opened
        rw [List.foldlM_map]
        rfl
      have hmigration : migration.apply start =
          (Request.opening :: migration.operations.map Request.change).foldlM
            (Request.grant Operation.apply) start := by
        rw [DeclaredMigration.apply, List.foldlM_cons, Request.grant]
        cases start.openMigration with
        | error error => rfl
        | ok opened => exact hoperations opened.2
      rw [hmigration]
      congr 1
      funext next
      exact ih next

/-- Compiling a plan comes to handing its operations over as they stand: both give the same
compilation, but for the names inside the definitions that wait, and both fail with the
same error at the same request.  A change without a definition leaves the columns as they
are. -/
theorem compileWith_eq_handOver (plan : Plan) (settings : Settings) :
    plan.compileWith settings = (plan.handOver settings).map Compilation.aligned ∧
      (∀ error, plan.compileWith settings = .error error ↔
        ∃ place, plan.RefusedAt Operation.apply settings place error) ∧
      (∀ place error, plan.RefusedAt Operation.apply settings place error ↔
        plan.RefusedAt Operation.handOver settings place error) ∧
      ∀ (registry : Registry) (stored next : Table) (name : String)
        (params : Option CopyParams),
        registry.applyTo stored
            (TableCall.column name (Operation.settings none params) .change).action = .ok next →
          next.columns = stored.columns := by
  refine ⟨?_, fun error => ?_, fun place error => ?_, ?_⟩
  · rw [compileWith_eq_grant]
    exact foldlM_view Request.grant_aligned (Compilation.new settings) plan.requests
  · rw [compileWith_eq_grant]
    exact foldlM_eq_error_iff
  · exact stopsAt_view Request.grant_aligned (Compilation.new settings) plan.requests place error
  · intro registry stored next name params hchange
    rw [Operation.action_change] at hchange
    exact Table.columns_of_changeColumn hchange

/-- A plan that defines a column under another name and then only says what fills it. -/
def renumbering : Plan where
  migrations := [
    { operations := [.createTable "people" [{ name := "age", type := .text }],
        .sql "DELETE FROM people" []] },
    { operations := [
        .changeColumn "people" "age" (some { name := "years", type := .integer }) none,
        .changeColumn "people" "age" none (some { coalesce := some (.integer 0) })] }]

/-- A table of one column. -/
def aged : Table := ⟨"people", [{ column := { name := "age", type := .text } }]⟩

/-- A plan that changes a column of a table it never creates. -/
def unfounded : Plan where
  migrations := [{ operations := [.changeColumn "people" "age" none none] },
    { operations := [] }]

/-- The two compilations of the one plan differ in the definition that waits; handed over,
the other fails with the same error; and what fills a column leaves its definition. -/
theorem compileWith_renumbering :
    (∃ compiled, renumbering.handOver {} = .ok compiled ∧
        renumbering.compileWith {} = .ok compiled.aligned ∧ compiled.aligned ≠ compiled) ∧
      (∃ place, unfounded.RefusedAt Operation.handOver {} place (.tableNotFound "people")) ∧
      ∃ next, Registry.empty.applyTo aged (TableCall.column "age"
          (Operation.settings none (some { coalesce := some (.integer 0) })) .change).action =
            .ok next ∧ next ≠ aged ∧ next.columns = aged.columns := by
  obtain ⟨hsame, -, -, hcolumns⟩ := compileWith_eq_handOver renumbering {}
  obtain ⟨-, hfails, hplaces, -⟩ := compileWith_eq_handOver unfounded {}
  refine ⟨?_, ?_, ?_⟩
  · have hhanded : (renumbering.handOver {}).toOption.isSome = true := by decide
    have hdiffer : ∀ compiled ∈ (renumbering.handOver {}).toOption,
        compiled.aligned ≠ compiled := by decide
    obtain ⟨compiled, hcompiled⟩ := Option.isSome_iff_exists.mp hhanded
    have hhandOver := toOption_eq_some_iff.mp hcompiled
    rw [hhandOver] at hsame
    exact ⟨compiled, hhandOver, hsame, hdiffer compiled hcompiled⟩
  · obtain ⟨place, hplace⟩ := (hfails (.tableNotFound "people")).mp rfl
    exact ⟨place, (hplaces place _).mp hplace⟩
  · exact ⟨_, rfl, by decide,
      hcolumns Registry.empty aged _ "age" (some { coalesce := some (.integer 0) }) rfl⟩

end Plan

end SchemaMigration
