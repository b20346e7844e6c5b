import SchemaMigration.Plan.Basic
import SchemaMigration.Proofs.Runs

/-!
# Plans as commands

Compiling a plan gives the commands of its migrations to a new compilation, up to
the first that is refused.  A migration is the command that opens it, followed by a
command for each operation: the drafts through which an operation is declared come
to one action.
-/

namespace SchemaMigration

namespace Command

/-- The compilation after a command, which must not be refused. -/
def accept (compilation : Compilation) (command : Command) :
    Except MigrationError Compilation :=
  (command.attempt compilation).map (·.2)

/-! ## What accepting a command comes to -/

theorem accept_start (compilation : Compilation) :
    start.accept compilation = compilation.openMigration.map (·.2) := by
  simp only [accept, attempt_eq]
  cases compilation.openMigration <;> rfl

theorem accept_enqueue (compilation : Compilation) (table : String) (action : Action) :
    (enqueue table action).accept compilation = compilation.enqueue table action := by
  simp only [accept, attempt_eq]
  cases compilation.enqueue table action <;> rfl

theorem accept_of_step? {command : Command} {step : Step} (hstep : command.step? = some step)
    (compilation : Compilation) : command.accept compilation = compilation.addStep step := by
  cases command <;> cases hstep
  all_goals
    simp only [accept, attempt_eq]
    cases compilation.addStep _ <;> rfl

theorem accept_flush (compilation : Compilation) :
    flush.accept compilation = compilation.flush := by
  simp only [accept, attempt_eq]
  cases compilation.flush <;> rfl

theorem accept_steps (compilation : Compilation) (applied : Option HistoryRecord) :
    (steps applied).accept compilation = compilation.flush := by
  simp only [accept, attempt_eq, Compilation.steps_eq]
  cases compilation.flush <;> rfl

theorem accept_rowTypes (compilation : Compilation) :
    rowTypes.accept compilation = compilation.flush := by
  simp only [accept, attempt_eq, Compilation.rowTypes_eq]
  cases compilation.flush <;> rfl

theorem attempt_of_accept {compilation next : Compilation} {command : Command}
    (haccept : command.accept compilation = .ok next) :
    ∃ reply, command.attempt compilation = .ok (reply, next) := by
  rw [accept] at haccept
  cases hattempt : command.attempt compilation with
  | error error =>
      rw [hattempt] at haccept
      cases haccept
  | ok result =>
      rw [hattempt] at haccept
      cases haccept
      exact ⟨result.1, rfl⟩

theorem perform_of_accept {compilation next : Compilation} {command : Command}
    (haccept : command.accept compilation = .ok next) :
    (command.perform compilation).2 = next := by
  obtain ⟨reply, hattempt⟩ := attempt_of_accept haccept
  rw [perform_eq, hattempt]

end Command

namespace Compilation

/-- The compilation after commands of which none may be refused. -/
def acceptAll (compilation : Compilation) (commands : List Command) :
    Except MigrationError Compilation :=
  commands.foldlM Command.accept compilation

theorem acceptAll_append (compilation : Compilation) (first second : List Command) :
    compilation.acceptAll (first ++ second) =
      compilation.acceptAll first >>= fun next => next.acceptAll second :=
  List.foldlM_append

theorem run_of_acceptAll {compilation final : Compilation} {commands : List Command}
    (haccept : compilation.acceptAll commands = .ok final) :
    compilation.run commands = final := by
  induction commands generalizing compilation with
  | nil =>
      cases haccept
      rfl
  | cons first rest ih =>
      obtain ⟨next, hfirst, hrest⟩ := bind_eq_ok_iff.mp haccept
      calc compilation.run (first :: rest)
          = (first.perform compilation).2.run rest := rfl
        _ = next.run rest := by rw [Command.perform_of_accept hfirst]
        _ = final := ih hrest

end Compilation

namespace Operation

/-- The command that an operation amounts to.  A changed column keeps its name. -/
def command : Operation → Command
  | createTable table columns => .enqueue table (.createTable columns)
  | dropTable table => .enqueue table .dropTable
  | renameTable table new => .enqueue table (.renameTable new)
  | addColumn table column params => .enqueue table (.addColumn column params)
  | changeColumn table name definition params =>
      .enqueue table
        (.changeColumn name (definition.map fun column => { column with name }) params)
  | dropColumn table name => .enqueue table (.dropColumn name)
  | renameColumn table old new => .enqueue table (.renameColumn old new)
  | sql query values => .sql query values

theorem declare_eq (compilation : Compilation) (table : String) (call : TableCall) :
    apply.declare compilation table call =
      (Command.enqueue table call.action).accept compilation := by
  rw [apply.declare, Compilation.declare, Command.accept_enqueue]
  cases compilation.enqueue table call.action <;> rfl

theorem action_create (column : Column) (params : Option CopyParams) :
    (TableCall.column column.name (settings (some column) params) .create).action =
      .addColumn column params := by
  cases params <;> rfl

theorem action_change (name : String) (definition : Option Column)
    (params : Option CopyParams) :
    (TableCall.column name (settings definition params) .change).action =
      .changeColumn name (definition.map fun column => { column with name }) params := by
  cases definition <;> cases params <;> rfl

theorem apply_eq_accept (compilation : Compilation) (operation : Operation) :
    operation.apply compilation = operation.command.accept compilation := by
  cases operation with
  | addColumn table column params =>
      rw [apply, declare_eq, action_create]
      rfl
  | changeColumn table name definition params =>
      rw [apply, declare_eq, action_change]
      rfl
  | sql query values => exact (Command.accept_of_step? rfl compilation).symm
  | createTable table columns => exact declare_eq compilation table (.create columns)
  | dropTable table => exact declare_eq compilation table .drop
  | renameTable table new => exact declare_eq compilation table (.rename new)
  | dropColumn table name => exact declare_eq compilation table (.column name [] .drop)
  | renameColumn table old new =>
      exact declare_eq compilation table (.column old [] (.rename new))

end Operation

/-- The commands that carry out a migration. -/
def DeclaredMigration.commands (migration : DeclaredMigration) : List Command :=
  .start :: migration.operations.map Operation.command

theorem DeclaredMigration.apply_eq_acceptAll (compilation : Compilation)
    (migration : DeclaredMigration) :
    migration.apply compilation = compilation.acceptAll migration.commands := by
  have hoperations : ∀ opened : Compilation,
      migration.operations.foldlM Operation.apply opened =
        opened.acceptAll (migration.operations.map Operation.command) := by
    intro opened
    rw [Compilation.acceptAll, List.foldlM_map]
    congr 1
    funext reached operation
    exact Operation.apply_eq_accept reached operation
  rw [apply, commands, Compilation.acceptAll, List.foldlM_cons, Command.accept_start]
  cases hopen : compilation.openMigration with
  | error error => rfl
  | ok opened => exact hoperations opened.2

theorem DeclaredMigration.applyAll_eq_acceptAll (compilation : Compilation)
    (migrations : List DeclaredMigration) :
    migrations.foldlM apply compilation =
      compilation.acceptAll (migrations.flatMap commands) := by
  induction migrations generalizing compilation with
  | nil => rfl
  | cons first rest ih =>
      rw [List.foldlM_cons, List.flatMap_cons, Compilation.acceptAll_append,
        apply_eq_acceptAll]
      congr 1
      funext next
      exact ih next

namespace Plan

/-- The commands that compile a plan. -/
def commands (plan : Plan) : List Command := plan.migrations.flatMap DeclaredMigration.commands

theorem compileWith_eq_acceptAll (plan : Plan) (settings : Settings) :
    plan.compileWith settings = (Compilation.new settings).acceptAll plan.commands :=
  DeclaredMigration.applyAll_eq_acceptAll (Compilation.new settings) plan.migrations

theorem run_of_compileWith {plan : Plan} {settings : Settings} {compiled : Compilation}
    (hcompile : plan.compileWith settings = .ok compiled) :
    (Compilation.new settings).run plan.commands = compiled := by
  rw [compileWith_eq_acceptAll] at hcompile
  exact Compilation.run_of_acceptAll hcompile

end Plan

end SchemaMigration
