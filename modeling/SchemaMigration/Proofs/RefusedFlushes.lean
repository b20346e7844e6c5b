import SchemaMigration.Proofs.DeclarationOrder

/-!
# Flushes that are refused for good

A flush is refused when the declarations that wait cannot be carried out one at a
time in the order in which they were made.  What is declared afterwards comes
later in that order, wherever the queue puts it.  So a refused flush is refused
again after all further commands, and nothing more is compiled.
-/

namespace SchemaMigration

namespace Command

/-- A command that compiles what is pending fails with the flush and changes
nothing. -/
theorem perform_of_flush_error {compilation : Compilation} {error : MigrationError}
    (hopen : compilation.migrations ≠ []) (hflush : compilation.flush = .error error)
    {command : Command} (hflushes : command.flushes = true) :
    command.perform compilation = (.refused error, compilation) := by
  have hadd : ∀ step, compilation.addStep step = .error error := by
    intro step
    have hnonempty : compilation.migrations.isEmpty = false := by simpa using hopen
    simp [Compilation.addStep_eq, hnonempty, hflush, bind, Except.bind]
  have hattempt : command.attempt compilation = .error error := by
    cases command with
    | enqueue table action => cases hflushes
    | start => simp [attempt_eq, Compilation.openMigration_eq, hflush, bind, Except.bind]
    | sql query values => simp [attempt_eq, hadd, bind, Except.bind]
    | script label => simp [attempt_eq, hadd, bind, Except.bind]
    | asyncScript label => simp [attempt_eq, hadd, bind, Except.bind]
    | flush => simp [attempt_eq, hflush, bind, Except.bind]
    | steps applied => simp [attempt_eq, Compilation.steps_eq, hflush, bind, Except.bind]
    | rowTypes => simp [attempt_eq, Compilation.rowTypes_eq, hflush, bind, Except.bind]
  rw [perform_eq, hattempt]

end Command

namespace Compilation

/-- The compilation waits for declarations that cannot be carried out one at a time
on the tables of `base`, where nothing was waiting. -/
structure BlockedSince (base : Compilation) (declarations : List Declaration)
    (compilation : Compilation) : Prop where
  coherent : base.Coherent
  opened : base.migrations ≠ []
  settled : base.queue = .empty
  impossible : Schema.performAll base.settings.replaceExistingTables declarations
    base.registry.schema = none
  waits : compilation = base.declareAll declarations

namespace BlockedSince

variable {base compilation : Compilation} {declarations : List Declaration}

theorem eq_declared (hblocked : BlockedSince base declarations compilation) :
    compilation = { base with queue := base.queue.declareAll declarations } := by
  rw [hblocked.waits, declareAll_eq hblocked.opened]

theorem flush_eq_error (hblocked : BlockedSince base declarations compilation) :
    ∃ error, compilation.flush = .error error := by
  have hbare := bare_schema_flush hblocked.coherent hblocked.opened hblocked.settled declarations
  rw [hblocked.impossible, ← hblocked.waits] at hbare
  cases hflush : compilation.flush with
  | error error => exact ⟨error, rfl⟩
  | ok flushed =>
      rw [hflush] at hbare
      cases hbare

/-- No command frees the compilation: it declares one thing more or is refused. -/
theorem perform (hblocked : BlockedSince base declarations compilation) (command : Command) :
    ∃ more, BlockedSince base more (command.perform compilation).2 := by
  have hopen : compilation.migrations ≠ [] := by
    rw [hblocked.eq_declared]
    exact hblocked.opened
  by_cases hflushes : command.flushes = true
  · obtain ⟨error, hflush⟩ := hblocked.flush_eq_error
    rw [Command.perform_of_flush_error hopen hflush hflushes]
    exact ⟨declarations, hblocked⟩
  · cases command with
    | enqueue table action =>
        have himpossible : Schema.performAll base.settings.replaceExistingTables
            (declarations ++ [⟨table, action⟩]) base.registry.schema = none := by
          rw [Schema.performAll_append, hblocked.impossible]
          rfl
        refine ⟨declarations ++ [⟨table, action⟩], hblocked.coherent, hblocked.opened,
          hblocked.settled, himpossible, ?_⟩
        rw [declareAll_concat, ← hblocked.waits]
        rfl
    | _ => exact absurd rfl hflushes

theorem run (hblocked : BlockedSince base declarations compilation) (later : List Command) :
    ∃ more, BlockedSince base more (compilation.run later) :=
  run_preserves (fun reached => ∃ more, BlockedSince base more reached)
    (fun _ command ⟨_, hreached⟩ => hreached.perform command) ⟨declarations, hblocked⟩ later

end BlockedSince

/-- Where a flush fails, what waits cannot be carried out in the order of
declaration. -/
theorem blockedSince_of_flush_error {settings : Settings} {commands : List Command}
    {error : MigrationError} (hflush : ((new settings).run commands).flush = .error error) :
    ∃ base declarations, BlockedSince base declarations ((new settings).run commands) := by
  obtain ⟨earlier, declarations, hempty, hopen, hcommands⟩ :=
    exists_run_eq_declareAll settings commands
  have hcoherent := coherent_run settings earlier
  have hsome : declarations ≠ [] := by
    rintro rfl
    have hnothing : ((new settings).run commands).flush = .ok ((new settings).run earlier) := by
      rw [hcommands]
      change ((new settings).run earlier).flush = _
      rw [flush_eq, hempty]
      rfl
    rw [hflush] at hnothing
    cases hnothing
  have hbare := bare_schema_flush hcoherent (hopen hsome) hempty declarations
  rw [← hcommands, hflush] at hbare
  exact ⟨_, declarations, hcoherent, hopen hsome, hempty,
    Option.map_eq_none_iff.mp hbare.symm, hcommands⟩

/-- A command that compiles what is pending and fails leaves everything as it was.
From then on every such command fails, whatever is declared in between, and neither
the tables nor the migrations change. -/
theorem refused_run (settings : Settings) (commands later : List Command)
    {error : MigrationError} (hflush : ((new settings).run commands).flush = .error error) :
    (∀ command : Command, command.flushes = true →
        command.perform ((new settings).run commands) =
          (.refused error, (new settings).run commands)) ∧
      (((new settings).run commands).run later).registry =
        ((new settings).run commands).registry ∧
      (((new settings).run commands).run later).migrations =
        ((new settings).run commands).migrations ∧
      ∃ again, ∀ command : Command, command.flushes = true →
        command.perform (((new settings).run commands).run later) =
          (.refused again, ((new settings).run commands).run later) := by
  obtain ⟨base, declarations, hblocked⟩ := blockedSince_of_flush_error hflush
  obtain ⟨more, hlater⟩ := hblocked.run later
  obtain ⟨again, hagain⟩ := hlater.flush_eq_error
  have hnow := hblocked.eq_declared
  have hthen := hlater.eq_declared
  have hopen : ((new settings).run commands).migrations ≠ [] := by
    rw [hnow]
    exact hblocked.opened
  have hstillOpen : (((new settings).run commands).run later).migrations ≠ [] := by
    rw [hthen]
    exact hblocked.opened
  exact ⟨fun command => Command.perform_of_flush_error hopen hflush, by rw [hthen, hnow],
    by rw [hthen, hnow], again, fun command => Command.perform_of_flush_error hstillOpen hagain⟩

/-- A column of a missing table is dropped, and the table created behind that. -/
theorem refused_repairing :
    ((new {}).run [.start, .enqueue "planets" (.dropColumn "name")]).flush =
        .error (.tableNotFound "planets") ∧
      ∃ again, Command.perform (((new {}).run
          [.start, .enqueue "planets" (.dropColumn "name")]).run
            [.enqueue "planets" (.createTable [{ name := "name", type := .text }])]) .flush =
        (.refused again, ((new {}).run
          [.start, .enqueue "planets" (.dropColumn "name")]).run
            [.enqueue "planets" (.createTable [{ name := "name", type := .text }])]) := by
  have hflush : ((new {}).run [.start, .enqueue "planets" (.dropColumn "name")]).flush =
      .error (.tableNotFound "planets") := rfl
  obtain ⟨-, -, -, again, hagain⟩ := refused_run {}
    [.start, .enqueue "planets" (.dropColumn "name")]
    [.enqueue "planets" (.createTable [{ name := "name", type := .text }])] hflush
  exact ⟨hflush, again, hagain .flush rfl⟩

end Compilation

end SchemaMigration
