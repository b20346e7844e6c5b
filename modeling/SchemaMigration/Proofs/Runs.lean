import SchemaMigration.Proofs.Atomicity
import SchemaMigration.Proofs.PlannedSchema

/-!
# Runs of commands

A command changes a compilation in one of three ways.  It is refused, or it
declares an action, or it flushes and then appends to the migrations.  What
these preserve holds after every run.
-/

namespace SchemaMigration

namespace Step

/-- The statement of a step that carries out declared actions. -/
def statement? : Step → Option Statement
  | schema statement => some statement
  | sql _ _ | record _ _ _ | script _ | asyncScript _ => none

/-- A step that carries out declared actions is written out as its statement. -/
theorem query?_of_statement? {step : Step} {statement : Statement}
    (hstatement : step.statement? = some statement) : step.query? = some statement.sql := by
  cases step <;> cases hstatement
  rfl

/-- Steps do what their statements do, where the other steps do nothing. -/
theorem foldlM_statements {State : Type} {execStep : Step → State → Option State}
    {exec : Statement → State → Option State}
    (hstep : ∀ step state,
      execStep step state = step.statement?.elim (some state) fun statement => exec statement state)
    (steps : List Step) (state : State) :
    steps.foldlM (fun state step => execStep step state) state =
      (steps.filterMap statement?).foldlM (fun state statement => exec statement state) state := by
  induction steps generalizing state with
  | nil => rfl
  | cons first rest ih =>
      rw [List.foldlM_cons, hstep, funext ih]
      cases first <;> rfl

end Step

/-- The command that makes a declaration. -/
def Declaration.command (declaration : Declaration) : Command :=
  .enqueue declaration.table declaration.action

namespace Compilation

/-- The steps of all migrations. -/
def allSteps (compilation : Compilation) : List Step :=
  compilation.migrations.flatMap (·.steps)

/-- The statements compiled so far. -/
def statements (compilation : Compilation) : List Statement :=
  compilation.allSteps.filterMap Step.statement?

/-- The compilation with a migration or a step appended that changes no table. -/
structure Extends (later compilation : Compilation) : Prop where
  settings_eq : later.settings = compilation.settings
  registry_eq : later.registry = compilation.registry
  queue_eq : later.queue = compilation.queue
  statements_eq : later.statements = compilation.statements
  migrations_ne : compilation.migrations ≠ [] → later.migrations ≠ []

theorem extends_self (compilation : Compilation) : compilation.Extends compilation :=
  ⟨rfl, rfl, rfl, rfl, id⟩

theorem extends_append (compilation : Compilation) {opened : Migration}
    (hopened : opened.steps.filterMap Step.statement? = []) :
    Extends { compilation with migrations := compilation.migrations ++ [opened] } compilation :=
  ⟨rfl, rfl, rfl, by simp [statements, allSteps, hopened], by simp⟩

/-! ## Appending -/

theorem appendSteps_cases {compilation next : Compilation} {steps : List Step}
    (happend : compilation.appendSteps steps = .ok next) :
    ∃ earlier current, compilation.migrations = earlier ++ [current] ∧
      next = { compilation with
        migrations := earlier ++ [{ current with steps := current.steps ++ steps }] } := by
  rw [appendSteps_eq] at happend
  split at happend
  · cases happend
  next current hcurrent =>
    obtain ⟨earlier, hmigrations⟩ := List.getLast?_eq_some_iff.mp hcurrent
    cases happend
    exact ⟨earlier, current, hmigrations, by rw [hmigrations, List.dropLast_concat]⟩

theorem exists_appendSteps {compilation : Compilation} (hopen : compilation.migrations ≠ [])
    (steps : List Step) : ∃ next, compilation.appendSteps steps = .ok next := by
  rw [appendSteps_eq]
  rw [List.getLast?_eq_some_getLast hopen]
  exact ⟨_, rfl⟩

theorem statements_appendSteps {compilation next : Compilation} {steps : List Step}
    (happend : compilation.appendSteps steps = .ok next) :
    next.statements = compilation.statements ++ steps.filterMap Step.statement? := by
  obtain ⟨earlier, current, hmigrations, rfl⟩ := appendSteps_cases happend
  simp [statements, allSteps, hmigrations]

/-! ## Flushing -/

/-- A flush plans the batches of the queue, appends their statements and leaves
the queue empty. -/
theorem flush_cases {compilation next : Compilation} (hflush : compilation.flush = .ok next) :
    ∃ planned, planBatches compilation.planner (compilation.registry, [])
        compilation.queue.batches = .ok planned ∧
      next.settings = compilation.settings ∧ next.registry = planned.1 ∧
      next.queue = .empty ∧ next.statements = compilation.statements ++ planned.2 ∧
      (compilation.migrations ≠ [] → next.migrations ≠ []) := by
  rw [flush_eq] at hflush
  split at hflush
  next hempty =>
    cases hflush
    have hbatches : compilation.queue.batches = [] := by
      simpa [Queue.isEmpty] using hempty
    refine ⟨(compilation.registry, []), by rw [hbatches]; rfl, rfl, rfl, ?_, by simp, id⟩
    rw [Queue.empty, ← hbatches]
  · obtain ⟨planned, hplan, hflush⟩ := bind_eq_ok_iff.mp hflush
    obtain ⟨appended, happend, hnext⟩ := bind_eq_ok_iff.mp hflush
    have hstatements := statements_appendSteps happend
    obtain ⟨earlier, current, -, rfl⟩ := appendSteps_cases happend
    cases hnext
    have hplanned : (planned.2.map Step.schema).filterMap Step.statement? = planned.2 := by
      simp [Function.comp_def, Step.statement?]
    rw [hplanned] at hstatements
    exact ⟨planned, hplan, rfl, rfl, rfl, hstatements, by simp⟩

/-- With a migration open, a flush fails only when planning does. -/
theorem exists_flush {compilation : Compilation}
    {planned : Registry × List Statement}
    (hopen : compilation.queue.batches ≠ [] → compilation.migrations ≠ [])
    (hplan : planBatches compilation.planner (compilation.registry, [])
      compilation.queue.batches = .ok planned) :
    ∃ next, compilation.flush = .ok next := by
  rw [flush_eq]
  split
  · exact ⟨_, rfl⟩
  next hempty =>
    have hmigrations := hopen (by simpa [Queue.isEmpty] using hempty)
    obtain ⟨next, hnext⟩ := exists_appendSteps hmigrations (planned.2.map Step.schema)
    exact ⟨_, by simp [hplan, hnext, bind, Except.bind]; rfl⟩

/-- A flush gives the schema that the waiting declarations give when they are
applied in the order in which they are drained. -/
theorem schema_flush {compilation : Compilation}
    (hopen : compilation.queue.batches ≠ [] → compilation.migrations ≠ []) :
    compilation.flush.toOption.map (·.registry.schema) =
      Schema.applyAll compilation.settings.replaceExistingTables
        compilation.queue.declarations compilation.registry.schema := by
  have hplanned := schema_planBatches compilation.planner compilation.queue.batches
    (compilation.registry, [])
  change _ = Schema.applyAll compilation.settings.replaceExistingTables
    compilation.queue.declarations compilation.registry.schema at hplanned
  rw [← hplanned]
  cases hflush : compilation.flush with
  | ok next =>
      obtain ⟨planned, hplan, -, hregistry, -⟩ := flush_cases hflush
      simp [Except.toOption, hplan, hregistry]
  | error error =>
      cases hplan : planBatches compilation.planner (compilation.registry, [])
          compilation.queue.batches with
      | error error => rfl
      | ok planned =>
          obtain ⟨next, hnext⟩ := exists_flush hopen hplan
          rw [hflush] at hnext
          cases hnext

theorem extends_appendSteps {compilation next : Compilation} {step : Step}
    (hstep : step.statement? = none) (happend : compilation.appendSteps [step] = .ok next) :
    next.Extends compilation := by
  have hstatements := statements_appendSteps happend
  obtain ⟨earlier, current, -, rfl⟩ := appendSteps_cases happend
  exact ⟨rfl, rfl, rfl, by simpa [hstep] using hstatements, by simp⟩

theorem openMigration_cases {compilation next : Compilation} {id : Int}
    (hopen : compilation.openMigration = .ok (id, next)) :
    ∃ flushed, compilation.flush = .ok flushed ∧ next.Extends flushed := by
  rw [openMigration_eq] at hopen
  obtain ⟨flushed, hflush, hnext⟩ := bind_eq_ok_iff.mp hopen
  cases hnext
  exact ⟨flushed, hflush, extends_append flushed rfl⟩

theorem enqueue_cases {compilation next : Compilation} {table : String} {action : Action}
    (henqueue : compilation.enqueue table action = .ok next) :
    compilation.migrations ≠ [] ∧
      next = { compilation with queue := compilation.queue.push table action } := by
  rw [enqueue_eq] at henqueue
  split at henqueue
  · cases henqueue
  next hopen =>
    cases henqueue
    exact ⟨by simpa using hopen, rfl⟩

theorem addStep_cases {compilation next : Compilation} {step : Step}
    (hstep : step.statement? = none) (hadd : compilation.addStep step = .ok next) :
    ∃ flushed, compilation.flush = .ok flushed ∧ next.Extends flushed := by
  rw [addStep_eq] at hadd
  split at hadd
  · cases hadd
  · obtain ⟨flushed, hflush, happend⟩ := bind_eq_ok_iff.mp hadd
    exact ⟨flushed, hflush, extends_appendSteps hstep happend⟩

end Compilation

namespace Command

/-- Whether a command compiles what is pending. -/
def flushes : Command → Bool
  | enqueue _ _ => false
  | start | sql _ _ | script _ | asyncScript _ | flush | steps _ | rowTypes => true

/-- The step that a command appends. -/
def step? : Command → Option Step
  | sql query values => some (.sql query values)
  | script label => some (.script label)
  | asyncScript label => some (.asyncScript label)
  | start | enqueue _ _ | flush | steps _ | rowTypes => none

/-- What a command that is not refused does: it opens a migration, declares an
action, appends a step, or only flushes. -/
inductive Effect (compilation next : Compilation) : Command → Prop
  | opening {id : Int} : compilation.openMigration = .ok (id, next) →
      Effect compilation next start
  | declaration {table : String} {action : Action} :
      compilation.enqueue table action = .ok next →
      Effect compilation next (enqueue table action)
  | addition {command : Command} {step : Step} : command.step? = some step →
      compilation.addStep step = .ok next → Effect compilation next command
  | query {command : Command} : command.flushes = true → command ≠ start →
      command.step? = none → compilation.flush = .ok next → Effect compilation next command

theorem effect_of_attempt {compilation next : Compilation} {command : Command} {reply : Reply}
    (hattempt : command.attempt compilation = .ok (reply, next)) :
    Effect compilation next command := by
  rw [attempt_eq] at hattempt
  cases command with
  | start =>
      obtain ⟨⟨id, opened⟩, hopen, hresult⟩ := bind_eq_ok_iff.mp hattempt
      cases hresult
      exact .opening hopen
  | enqueue table action =>
      obtain ⟨declared, hdeclared, hresult⟩ := bind_eq_ok_iff.mp hattempt
      cases hresult
      exact .declaration hdeclared
  | sql query values =>
      obtain ⟨added, hadd, hresult⟩ := bind_eq_ok_iff.mp hattempt
      cases hresult
      exact .addition rfl hadd
  | script label =>
      obtain ⟨added, hadd, hresult⟩ := bind_eq_ok_iff.mp hattempt
      cases hresult
      exact .addition rfl hadd
  | asyncScript label =>
      obtain ⟨added, hadd, hresult⟩ := bind_eq_ok_iff.mp hattempt
      cases hresult
      exact .addition rfl hadd
  | flush =>
      obtain ⟨flushed, hflush, hresult⟩ := bind_eq_ok_iff.mp hattempt
      cases hresult
      exact .query rfl (by simp) rfl hflush
  | steps applied =>
      obtain ⟨⟨delta, final⟩, hsteps, hresult⟩ := bind_eq_ok_iff.mp hattempt
      rw [Compilation.steps_eq] at hsteps
      obtain ⟨flushed, hflush, hdelta⟩ := bind_eq_ok_iff.mp hsteps
      cases hdelta
      cases hresult
      exact .query rfl (by simp) rfl hflush
  | rowTypes =>
      obtain ⟨⟨document, final⟩, htypes, hresult⟩ := bind_eq_ok_iff.mp hattempt
      rw [Compilation.rowTypes_eq] at htypes
      obtain ⟨flushed, hflush, hdocument⟩ := bind_eq_ok_iff.mp htypes
      cases hdocument
      cases hresult
      exact .query rfl (by simp) rfl hflush

theorem flushes_of_step? {command : Command} {step : Step}
    (hstep : command.step? = some step) :
    command.flushes = true ∧ step.statement? = none := by
  cases command <;> cases hstep <;> exact ⟨rfl, rfl⟩

/-- A command that is not refused declares an action, or it flushes and then appends
what changes no table. -/
theorem attempt_cases {compilation next : Compilation} {command : Command} {reply : Reply}
    (hattempt : command.attempt compilation = .ok (reply, next)) :
    (∃ table action, command = .enqueue table action ∧ compilation.migrations ≠ [] ∧
        next = { compilation with queue := compilation.queue.push table action }) ∨
      command.flushes = true ∧
        ∃ flushed, compilation.flush = .ok flushed ∧ next.Extends flushed := by
  cases effect_of_attempt hattempt with
  | opening hopen => exact .inr ⟨rfl, Compilation.openMigration_cases hopen⟩
  | declaration henqueue => exact .inl ⟨_, _, rfl, Compilation.enqueue_cases henqueue⟩
  | addition hstep hadd =>
      obtain ⟨hflushes, hstatement⟩ := flushes_of_step? hstep
      exact .inr ⟨hflushes, Compilation.addStep_cases hstatement hadd⟩
  | query hflushes _ _ hflush =>
      exact .inr ⟨hflushes, next, hflush, Compilation.extends_self next⟩

theorem perform_cases (compilation : Compilation) (command : Command) :
    (command.perform compilation).2 = compilation ∨
      (∃ table action, command = .enqueue table action ∧ compilation.migrations ≠ [] ∧
        (command.perform compilation).2 =
          { compilation with queue := compilation.queue.push table action }) ∨
      command.flushes = true ∧
        ∃ flushed, compilation.flush = .ok flushed ∧
          (command.perform compilation).2.Extends flushed := by
  rw [perform_eq]
  cases hattempt : command.attempt compilation with
  | error error => exact Or.inl rfl
  | ok result => exact Or.inr (attempt_cases hattempt)

end Command

namespace Compilation

/-- What holds of a compilation at any moment of a run: table names are distinct,
batches know the names they touch, and actions wait only for a migration. -/
structure Coherent (compilation : Compilation) : Prop where
  distinct : compilation.registry.Distinct
  covers : compilation.queue.Covers
  opened : compilation.queue.batches ≠ [] → compilation.migrations ≠ []

theorem coherent_new (settings : Settings) : (new settings).Coherent :=
  ⟨Registry.distinct_empty, Queue.covers_empty, fun hqueue => absurd rfl hqueue⟩

theorem coherent_push {compilation : Compilation} (hcoherent : compilation.Coherent)
    (hopen : compilation.migrations ≠ []) (table : String) (action : Action) :
    Coherent { compilation with queue := compilation.queue.push table action } :=
  ⟨hcoherent.distinct, Queue.covers_declare hcoherent.covers ⟨table, action⟩, fun _ => hopen⟩

theorem coherent_flush {compilation flushed : Compilation} (hcoherent : compilation.Coherent)
    (hflush : compilation.flush = .ok flushed) : flushed.Coherent := by
  obtain ⟨planned, hplan, -, hregistry, hqueue, -, -⟩ := flush_cases hflush
  constructor
  · rw [hregistry]
    exact distinct_planBatches hcoherent.distinct hplan
  · rw [hqueue]
    exact Queue.covers_empty
  · rw [hqueue]
    exact fun hne => absurd rfl hne

theorem coherent_of_extends {later compilation : Compilation} (hcoherent : compilation.Coherent)
    (hextends : later.Extends compilation) : later.Coherent := by
  constructor
  · rw [hextends.registry_eq]
    exact hcoherent.distinct
  · rw [hextends.queue_eq]
    exact hcoherent.covers
  · rw [hextends.queue_eq]
    exact fun hqueue => hextends.migrations_ne (hcoherent.opened hqueue)

theorem coherent_perform {compilation : Compilation} (hcoherent : compilation.Coherent)
    (command : Command) : (command.perform compilation).2.Coherent := by
  rcases command.perform_cases compilation with
    hsame | ⟨table, action, -, hopen, hnext⟩ | ⟨-, flushed, hflush, hextends⟩
  · rwa [hsame]
  · rw [hnext]
    exact coherent_push hcoherent hopen table action
  · exact coherent_of_extends (coherent_flush hcoherent hflush) hextends

/-- What every command preserves, a run preserves. -/
theorem run_preserves (property : Compilation → Prop)
    (hperform : ∀ compilation command, property compilation →
      property (Command.perform compilation command).2)
    {start : Compilation} (hstart : property start) (commands : List Command) :
    property (start.run commands) := by
  induction commands generalizing start with
  | nil => exact hstart
  | cons command rest ih => exact ih (hperform start command hstart)

theorem settings_run (compilation : Compilation) (commands : List Command) :
    (compilation.run commands).settings = compilation.settings := by
  refine run_preserves (fun later => later.settings = compilation.settings)
    (fun later command hsettings => ?_) rfl commands
  rcases command.perform_cases later with
    hsame | ⟨table, action, -, -, hnext⟩ | ⟨-, flushed, hflush, hextends⟩
  · rwa [hsame]
  · rwa [hnext]
  · obtain ⟨planned, -, hflushed, -⟩ := flush_cases hflush
    rw [hextends.settings_eq, hflushed, hsettings]

theorem coherent_run (settings : Settings) (commands : List Command) :
    ((new settings).run commands).Coherent :=
  run_preserves Coherent (fun _ command hcoherent => coherent_perform hcoherent command)
    (coherent_new settings) commands

/-- The compilation after declarations without a flush in between. -/
def declareAll (compilation : Compilation) (declarations : List Declaration) : Compilation :=
  compilation.run (declarations.map Declaration.command)

/-- With a migration open, declarations only wait in the queue. -/
theorem declareAll_eq {compilation : Compilation} (hopen : compilation.migrations ≠ [])
    (declarations : List Declaration) :
    compilation.declareAll declarations =
      { compilation with queue := compilation.queue.declareAll declarations } := by
  induction declarations generalizing compilation with
  | nil => rfl
  | cons first rest ih =>
      have hfirst : (first.command.perform compilation).2 =
          { compilation with queue := compilation.queue.declare first } := by
        have hnonempty : compilation.migrations.isEmpty = false := by simpa using hopen
        simp only [Declaration.command, Command.perform_eq, Command.attempt_eq, enqueue_eq,
          hnonempty]
        rfl
      calc compilation.declareAll (first :: rest)
          = (first.command.perform compilation).2.declareAll rest := rfl
        _ = { compilation with queue := compilation.queue.declareAll (first :: rest) } := by
            rw [hfirst]
            exact ih hopen

theorem coherent_declareAll {compilation : Compilation} (hcoherent : compilation.Coherent)
    (declarations : List Declaration) : (compilation.declareAll declarations).Coherent :=
  run_preserves Coherent (fun _ command hcoherent => coherent_perform hcoherent command)
    hcoherent _

theorem run_concat (compilation : Compilation) (commands : List Command) (last : Command) :
    compilation.run (commands ++ [last]) = (last.perform (compilation.run commands)).2 := by
  simp [run]

theorem declareAll_concat (compilation : Compilation) (declarations : List Declaration)
    (last : Declaration) :
    compilation.declareAll (declarations ++ [last]) =
      (last.command.perform (compilation.declareAll declarations)).2 := by
  rw [declareAll, List.map_append, List.map_singleton, run_concat]
  rfl

/-- Every moment of a run is one at which nothing was pending, followed by
declarations. -/
theorem exists_run_eq_declareAll (settings : Settings) (commands : List Command) :
    ∃ earlier declarations, ((new settings).run earlier).queue = .empty ∧
      (declarations ≠ [] → ((new settings).run earlier).migrations ≠ []) ∧
      (new settings).run commands = ((new settings).run earlier).declareAll declarations := by
  induction commands using List.reverseRecOn with
  | nil => exact ⟨[], [], rfl, fun hne => absurd rfl hne, rfl⟩
  | append_singleton commands last ih =>
      obtain ⟨earlier, declarations, hempty, hopen, hcommands⟩ := ih
      rw [run_concat]
      rcases last.perform_cases ((new settings).run commands) with
        hsame | ⟨table, action, rfl, hmigrations, -⟩ | ⟨-, flushed, hflush, hextends⟩
      · exact ⟨earlier, declarations, hempty, hopen, hsame.trans hcommands⟩
      · refine ⟨earlier, declarations ++ [⟨table, action⟩], hempty, fun _ => ?_, ?_⟩
        · intro hclosed
          have hnone : declarations = [] := by
            by_contra hne
            exact hopen hne hclosed
          rw [hcommands, hnone] at hmigrations
          exact hmigrations hclosed
        · rw [declareAll_concat, ← hcommands]
          rfl
      · refine ⟨commands ++ [last], [], ?_, fun hne => absurd rfl hne, ?_⟩
        · obtain ⟨planned, -, -, -, hqueue, -⟩ := flush_cases hflush
          rw [run_concat, hextends.queue_eq, hqueue]
        · rw [← run_concat]
          rfl

end Compilation

end SchemaMigration
