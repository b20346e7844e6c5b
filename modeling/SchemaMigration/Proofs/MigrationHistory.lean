import SchemaMigration.Proofs.PlanCommands

/-!
# The history of the migrations

Migrations are only added to.  A command appends steps to the last of them, or opens
another behind it, so all but the last are final.  Each migration has the number of
its place, and its first step records it.  Numbers are counted in machine words, from
one that the settings choose.
-/

namespace SchemaMigration

theorem Number.word_of_isWord {n : Int} (hword : Json.Decoder.isWord n = true) : word n = n := by
  rw [Json.Decoder.isWord, Bool.and_eq_true, decide_eq_true_eq, decide_eq_true_eq] at hword
  exact word_eq_self (by omega) (by omega)

/-- The number of the migration behind so many others. -/
def Settings.number (settings : Settings) (earlier : Nat) : Int :=
  Number.word (earlier + settings.firstMigrationId)

/-- The migration that is opened behind so many others. -/
def Migration.opened (settings : Settings) (earlier : Nat) : Migration :=
  ⟨settings.number earlier,
    [.record settings.migrationTable (settings.number earlier) settings.appVersion]⟩

/-- Steps are appended to the last migration. -/
inductive Continues : List Migration → List Migration → Prop
  | steps (earlier : List Migration) (current : Migration) (added : List Step) :
      Continues (earlier ++ [current])
        (earlier ++ [{ current with steps := current.steps ++ added }])

/-- The migrations are added to, in the last of them or behind it. -/
inductive Grows (settings : Settings) : List Migration → List Migration → Prop
  | continued {before after : List Migration} :
      Continues before after → Grows settings before after
  | opened (before : List Migration) :
      Grows settings before (before ++ [.opened settings before.length])

open Relation (ReflTransGen)

theorem length_of_continues {before after : List Migration}
    (hcontinues : ReflTransGen Continues before after) : after.length = before.length := by
  induction hcontinues with
  | refl => rfl
  | tail _ hstep ih =>
      obtain ⟨earlier, current, added⟩ := hstep
      rw [← ih, List.length_append, List.length_append]
      rfl

theorem grows_of_continues (settings : Settings) {before after : List Migration}
    (hcontinues : ReflTransGen Continues before after) :
    ReflTransGen (Grows settings) before after :=
  ReflTransGen.mono (fun _ _ hstep => .continued hstep) before after hcontinues

/-! ## What stays as the migrations grow -/

/-- Migrations with others behind them stay as they are. -/
theorem exists_append_of_grows {settings : Settings} {final before after : List Migration}
    (hgrows : ReflTransGen (Grows settings) before after)
    (hbehind : ∃ tail, tail ≠ [] ∧ before = final ++ tail) :
    ∃ tail, tail ≠ [] ∧ after = final ++ tail := by
  induction hgrows with
  | refl => exact hbehind
  | tail _ hstep ih =>
      obtain ⟨tail, hne, happend⟩ := ih
      cases hstep with
      | opened => exact ⟨tail ++ [_], by simp, by rw [happend, List.append_assoc]⟩
      | continued hcontinues =>
          obtain ⟨earlier, current, added⟩ := hcontinues
          have hlast := List.dropLast_concat_getLast hne
          have hsplit : earlier ++ [current] =
              (final ++ tail.dropLast) ++ [tail.getLast hne] := by
            rw [List.append_assoc, hlast, happend]
          obtain ⟨hearlier, -⟩ := List.append_inj' hsplit rfl
          exact ⟨tail.dropLast ++ [{ current with steps := current.steps ++ added }], by simp,
            by rw [hearlier, List.append_assoc]⟩

/-- Each migration has the number of its place and begins with its record. -/
def Recorded (settings : Settings) (migrations : List Migration) : Prop :=
  ∀ (index : Nat) (migration : Migration), migrations[index]? = some migration →
    migration.id = settings.number index ∧
      migration.steps.head? =
        some (.record settings.migrationTable migration.id settings.appVersion)

theorem recorded_nil (settings : Settings) : Recorded settings [] := by
  intro index migration hmigration
  simp at hmigration

theorem recorded_concat {settings : Settings} {earlier : List Migration} {last : Migration} :
    Recorded settings (earlier ++ [last]) ↔
      Recorded settings earlier ∧ last.id = settings.number earlier.length ∧
        last.steps.head? =
          some (.record settings.migrationTable last.id settings.appVersion) := by
  constructor
  · intro hrecorded
    refine ⟨fun index migration hmigration => ?_, hrecorded earlier.length last (by simp)⟩
    have hlt : index < earlier.length := (List.getElem?_eq_some_iff.mp hmigration).1
    exact hrecorded index migration (by rw [List.getElem?_append_left hlt, hmigration])
  · rintro ⟨hearlier, hlast⟩ index migration hmigration
    rw [List.getElem?_append] at hmigration
    split at hmigration
    · exact hearlier index migration hmigration
    next hge =>
      obtain ⟨hindex, rfl⟩ : index - earlier.length = 0 ∧ last = migration := by
        simpa using List.getElem?_eq_some_iff.mp hmigration
      have hplace : index = earlier.length := by omega
      rwa [hplace]

theorem recorded_of_grows {settings : Settings} {before after : List Migration}
    (hgrows : ReflTransGen (Grows settings) before after)
    (hrecorded : Recorded settings before) : Recorded settings after := by
  induction hgrows with
  | refl => exact hrecorded
  | tail _ hstep ih =>
      cases hstep with
      | opened => exact recorded_concat.mpr ⟨ih, rfl, rfl⟩
      | continued hcontinues =>
          obtain ⟨earlier, current, added⟩ := hcontinues
          obtain ⟨hearlier, hid, hhead⟩ := recorded_concat.mp ih
          exact recorded_concat.mpr ⟨hearlier, hid, by simp [List.head?_append, hhead]⟩

/-! ## What commands add -/

namespace Compilation

theorem continues_appendSteps {compilation next : Compilation} {steps : List Step}
    (happend : compilation.appendSteps steps = .ok next) :
    Continues compilation.migrations next.migrations := by
  obtain ⟨earlier, current, hmigrations, rfl⟩ := appendSteps_cases happend
  rw [hmigrations]
  exact .steps earlier current steps

theorem continues_flush {compilation flushed : Compilation}
    (hflush : compilation.flush = .ok flushed) :
    ReflTransGen Continues compilation.migrations flushed.migrations := by
  rw [flush_eq] at hflush
  split at hflush
  · cases hflush
    exact .refl
  · obtain ⟨planned, -, hflush⟩ := bind_eq_ok_iff.mp hflush
    obtain ⟨appended, happend, hflushed⟩ := bind_eq_ok_iff.mp hflush
    cases hflushed
    have hcontinues := continues_appendSteps happend
    exact .single hcontinues

theorem continues_addStep {compilation next : Compilation} {step : Step}
    (hadd : compilation.addStep step = .ok next) :
    ReflTransGen Continues compilation.migrations next.migrations := by
  rw [addStep_eq] at hadd
  split at hadd
  · cases hadd
  · obtain ⟨flushed, hflush, happend⟩ := bind_eq_ok_iff.mp hadd
    exact (continues_flush hflush).tail (continues_appendSteps happend)

theorem migrations_openMigration {compilation next : Compilation} {id : Int}
    (hopen : compilation.openMigration = .ok (id, next)) :
    ∃ flushed, compilation.flush = .ok flushed ∧
      next.migrations =
        flushed.migrations ++ [.opened compilation.settings flushed.migrations.length] := by
  rw [openMigration_eq] at hopen
  obtain ⟨flushed, hflush, hnext⟩ := bind_eq_ok_iff.mp hopen
  obtain ⟨planned, -, hsettings, -⟩ := flush_cases hflush
  cases hnext
  exact ⟨flushed, hflush, by rw [← hsettings]; rfl⟩

end Compilation

/-- Opening a migration flushes into the last one before, and every other command
only continues the last one. -/
theorem Command.migrations_of_attempt {compilation next : Compilation} {command : Command}
    {reply : Reply} (hattempt : command.attempt compilation = .ok (reply, next)) :
    (command = .start ∧ ∃ flushed, compilation.flush = .ok flushed ∧
        next.migrations =
          flushed.migrations ++ [.opened compilation.settings flushed.migrations.length]) ∨
      command ≠ .start ∧ ReflTransGen Continues compilation.migrations next.migrations := by
  cases effect_of_attempt hattempt with
  | opening hopen => exact .inl ⟨rfl, Compilation.migrations_openMigration hopen⟩
  | declaration henqueue =>
      obtain ⟨-, rfl⟩ := Compilation.enqueue_cases henqueue
      exact .inr ⟨by simp, .refl⟩
  | addition hstep hadd =>
      have hopen : command ≠ .start := by
        rintro rfl
        cases hstep
      exact .inr ⟨hopen, Compilation.continues_addStep hadd⟩
  | query _ hopen _ hflush => exact .inr ⟨hopen, Compilation.continues_flush hflush⟩

namespace Compilation

theorem grows_perform (compilation : Compilation) (command : Command) :
    ReflTransGen (Grows compilation.settings) compilation.migrations
      (command.perform compilation).2.migrations := by
  rw [Command.perform_eq]
  cases hattempt : command.attempt compilation with
  | error error => exact .refl
  | ok result =>
      rcases Command.migrations_of_attempt hattempt with
        ⟨-, flushed, hflush, hnext⟩ | ⟨-, hcontinues⟩
      · have hflushed := grows_of_continues compilation.settings (continues_flush hflush)
        exact hflushed.tail (hnext ▸ .opened flushed.migrations)
      · exact grows_of_continues compilation.settings hcontinues

theorem grows_run (compilation : Compilation) (commands : List Command) :
    ReflTransGen (Grows compilation.settings) compilation.migrations
      (compilation.run commands).migrations := by
  induction commands using List.reverseRecOn with
  | nil => exact .refl
  | append_singleton earlier last ih =>
      have hlast := grows_perform (compilation.run earlier) last
      rw [settings_run] at hlast
      rw [run_concat]
      exact ih.trans hlast

theorem recorded_run (settings : Settings) (commands : List Command) :
    Recorded settings ((new settings).run commands).migrations :=
  recorded_of_grows (grows_run (new settings) commands) (recorded_nil settings)

/-- Commands that open no migration only continue the last one. -/
theorem continues_acceptAll {compilation final : Compilation} {commands : List Command}
    (hclosed : ∀ command ∈ commands, command ≠ .start)
    (haccept : compilation.acceptAll commands = .ok final) :
    ReflTransGen Continues compilation.migrations final.migrations := by
  induction commands generalizing compilation with
  | nil =>
      cases haccept
      exact .refl
  | cons first rest ih =>
      obtain ⟨next, hfirst, hrest⟩ := bind_eq_ok_iff.mp haccept
      obtain ⟨reply, hattempt⟩ := Command.attempt_of_accept hfirst
      have hfinal := ih (fun command hmem => hclosed command (List.mem_cons_of_mem _ hmem)) hrest
      rcases Command.migrations_of_attempt hattempt with ⟨hstart, -⟩ | ⟨-, hcontinues⟩
      · exact absurd hstart (hclosed first List.mem_cons_self)
      · exact hcontinues.trans hfinal

theorem grows_acceptAll {compilation final : Compilation} {commands : List Command}
    (haccept : compilation.acceptAll commands = .ok final) :
    ReflTransGen (Grows compilation.settings) compilation.migrations final.migrations := by
  rw [← run_of_acceptAll haccept]
  exact grows_run compilation commands

end Compilation

/-! ## What a declared migration adds -/

namespace DeclaredMigration

open Compilation

variable {compilation next : Compilation}

theorem continues_apply {migration : DeclaredMigration}
    (happly : migration.apply compilation = .ok next) :
    ∃ flushed, compilation.flush = .ok flushed ∧
      ReflTransGen Continues
        (flushed.migrations ++ [.opened compilation.settings flushed.migrations.length])
        next.migrations := by
  rw [apply_eq_acceptAll] at happly
  obtain ⟨opened, hstart, hoperations⟩ := bind_eq_ok_iff.mp happly
  obtain ⟨reply, hattempt⟩ := Command.attempt_of_accept hstart
  have hclosed : ∀ command ∈ migration.operations.map Operation.command, command ≠ .start := by
    intro command hmem
    obtain ⟨operation, -, rfl⟩ := List.mem_map.mp hmem
    cases operation <;> simp [Operation.command]
  have hcontinues := continues_acceptAll hclosed hoperations
  rcases Command.migrations_of_attempt hattempt with ⟨-, flushed, hflush, hopened⟩ | ⟨hne, -⟩
  · exact ⟨flushed, hflush, hopened ▸ hcontinues⟩
  · exact absurd rfl hne

theorem length_apply {migration : DeclaredMigration}
    (happly : migration.apply compilation = .ok next) :
    next.migrations.length = compilation.migrations.length + 1 := by
  obtain ⟨flushed, hflush, hcontinues⟩ := continues_apply happly
  calc next.migrations.length
      = (flushed.migrations ++
          [Migration.opened compilation.settings flushed.migrations.length]).length :=
        length_of_continues hcontinues
    _ = flushed.migrations.length + 1 := by simp
    _ = compilation.migrations.length + 1 := by
        rw [length_of_continues (continues_flush hflush)]

theorem length_applyAll {migrations : List DeclaredMigration}
    (happly : migrations.foldlM apply compilation = .ok next) :
    next.migrations.length = compilation.migrations.length + migrations.length := by
  induction migrations generalizing compilation with
  | nil =>
      cases happly
      rfl
  | cons first rest ih =>
      rw [List.foldlM_cons] at happly
      obtain ⟨middle, hfirst, hrest⟩ := bind_eq_ok_iff.mp happly
      calc next.migrations.length
          = middle.migrations.length + rest.length := ih hrest
        _ = compilation.migrations.length + (first :: rest).length := by
            rw [length_apply hfirst, List.length_cons]
            omega

/-- When further migrations are declared, what is pending is compiled first, and the
migrations stay as they are then. -/
theorem exists_append_applyAll {first : DeclaredMigration} {rest : List DeclaredMigration}
    (happly : (first :: rest).foldlM apply compilation = .ok next) :
    ∃ flushed, compilation.flush = .ok flushed ∧
      ∃ tail, tail ≠ [] ∧ next.migrations = flushed.migrations ++ tail := by
  rw [List.foldlM_cons] at happly
  obtain ⟨middle, hfirst, hrest⟩ := bind_eq_ok_iff.mp happly
  obtain ⟨flushed, hflush, hcontinues⟩ := continues_apply hfirst
  have hmiddle := exists_append_of_grows (grows_of_continues compilation.settings hcontinues)
    ⟨_, List.cons_ne_nil _ [], rfl⟩
  rw [applyAll_eq_acceptAll] at hrest
  exact ⟨flushed, hflush, exists_append_of_grows (grows_acceptAll hrest) hmiddle⟩

end DeclaredMigration

end SchemaMigration
