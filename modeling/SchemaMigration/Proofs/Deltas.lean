import SchemaMigration.Proofs.MigrationHistory

/-!
# Deltas between the prefixes of a plan

The steps for a database that is at some migration of a plan are those of the
migrations behind it.  They continue the steps that the plan up to that migration
gives for an empty database: what is pending at its end is compiled into its last
migration, whether another one is opened behind it or the steps are asked for.
-/

namespace SchemaMigration

/-! ## Numbers in range -/

/-- The numbers of so many migrations, and the one in front of the first, are machine
words. -/
def Settings.Counts (settings : Settings) (count : Nat) : Prop :=
  ∀ place ≤ count, Json.Decoder.isWord (settings.firstMigrationId + place - 1) = true

namespace Settings.Counts

variable {settings : Settings} {count : Nat}

theorem mono {fewer : Nat} (hcounts : settings.Counts count) (hfewer : fewer ≤ count) :
    settings.Counts fewer :=
  fun place hplace => hcounts place (hplace.trans hfewer)

theorem word_eq (hcounts : settings.Counts count) {place : Nat} (hplace : place ≤ count) :
    Number.word (settings.firstMigrationId + place - 1) =
      settings.firstMigrationId + place - 1 :=
  Number.word_of_isWord (hcounts place hplace)

theorem number_eq (hcounts : settings.Counts count) {index : Nat} (hindex : index < count) :
    settings.number index = settings.firstMigrationId + index := by
  have hword := hcounts.word_eq (Nat.succ_le_of_lt hindex)
  rw [number, add_comm]
  convert hword using 2 <;> push_cast <;> omega

/-- Without a record, a database is in front of the first migration. -/
theorem latestId_none (hcounts : settings.Counts count) :
    Compilation.latestId settings none = settings.firstMigrationId - 1 := by
  have hword := hcounts.word_eq (Nat.zero_le count)
  rwa [Nat.cast_zero, add_zero] at hword

end Settings.Counts

/-- Those after an identifier are those from some place on. -/
theorem filter_of_recorded {settings : Settings} {migrations : List Migration}
    (hrecorded : Recorded settings migrations) (hcounts : settings.Counts migrations.length)
    (latest : Int) :
    migrations.filter (latest < ·.id) =
      migrations.drop (latest + 1 - settings.firstMigrationId).toNat := by
  induction migrations using List.reverseRecOn with
  | nil => simp
  | append_singleton earlier last ih =>
      obtain ⟨hearlier, hid, -⟩ := recorded_concat.mp hrecorded
      rw [List.length_append, List.length_singleton] at hcounts
      rw [hcounts.number_eq (Nat.lt_succ_self _)] at hid
      rw [List.filter_append, ih hearlier (hcounts.mono (Nat.le_succ _)), List.drop_append]
      congr 1
      by_cases hafter : latest < last.id
      · have hzero : (latest + 1 - settings.firstMigrationId).toNat - earlier.length = 0 := by
          omega
        simp [hafter, hzero]
      · have hpositive :
            [last].length ≤ (latest + 1 - settings.firstMigrationId).toNat - earlier.length := by
          rw [List.length_singleton]
          omega
        rw [List.drop_eq_nil_of_le hpositive]
        simp [hafter]

namespace Compilation

/-! ## The migrations of a delta -/

variable {compilation : Compilation}

theorem stepsAfter_eq (hrecorded : Recorded compilation.settings compilation.migrations)
    (hcounts : compilation.settings.Counts compilation.migrations.length) (latest : Int) :
    compilation.stepsAfter latest =
      (compilation.migrations.drop
        (latest + 1 - compilation.settings.firstMigrationId).toNat).flatMap (·.steps) := by
  rw [stepsAfter, filter_of_recorded hrecorded hcounts]

theorem targetId_eq (hcounts : compilation.settings.Counts compilation.migrations.length) :
    compilation.targetId =
      compilation.settings.firstMigrationId + compilation.migrations.length - 1 := by
  rw [targetId, nextId, Number.word_word_sub, add_comm, hcounts.word_eq (Nat.le_refl _)]

theorem steps_ne_nil {settings : Settings} {migrations : List Migration}
    (hrecorded : Recorded settings migrations) {migration : Migration}
    (hmem : migration ∈ migrations) : migration.steps ≠ [] := by
  obtain ⟨index, hindex⟩ := List.mem_iff_getElem?.mp hmem
  obtain ⟨-, hhead⟩ := hrecorded index migration hindex
  intro hnil
  rw [hnil] at hhead
  cases hhead

/-- Nothing is left to do at the last declared migration and beyond. -/
theorem stepsAfter_eq_nil_iff
    (hrecorded : Recorded compilation.settings compilation.migrations)
    (hcounts : compilation.settings.Counts compilation.migrations.length) (latest : Int) :
    compilation.stepsAfter latest = [] ↔
      compilation.migrations = [] ∨ compilation.targetId ≤ latest := by
  have hsteps : compilation.stepsAfter latest = [] ↔
      compilation.migrations.length ≤
        (latest + 1 - compilation.settings.firstMigrationId).toNat := by
    rw [stepsAfter_eq hrecorded hcounts, List.flatMap_eq_nil_iff, ← List.drop_eq_nil_iff]
    constructor
    · intro hnone
      refine List.eq_nil_iff_forall_not_mem.mpr fun migration hmem => ?_
      exact steps_ne_nil hrecorded (List.mem_of_mem_drop hmem) (hnone migration hmem)
    · intro hnone
      simp [hnone]
  rw [hsteps, ← List.length_eq_zero_iff, targetId_eq hcounts]
  omega

/-- A delta is the steps that are left, in front of them the prelude and behind them
the epilogue unless the settings leave these out. -/
theorem delta_eq (hrecorded : Recorded compilation.settings compilation.migrations)
    (hcounts : compilation.settings.Counts compilation.migrations.length) (latest : Int) :
    compilation.delta latest =
      if compilation.stepsAfter latest = [] then []
      else if compilation.settings.ignoreTransactionStatements then
        compilation.stepsAfter latest
      else prelude ++ compilation.stepsAfter latest ++ epilogue := by
  have hnone : (compilation.migrations.isEmpty || compilation.targetId ≤ latest) = true ↔
      compilation.stepsAfter latest = [] := by
    rw [stepsAfter_eq_nil_iff hrecorded hcounts]
    simp
  rw [delta]
  simp only [hnone]

theorem delta_of_ignoring (hrecorded : Recorded compilation.settings compilation.migrations)
    (hcounts : compilation.settings.Counts compilation.migrations.length)
    (hignore : compilation.settings.ignoreTransactionStatements = true) (latest : Int) :
    compilation.delta latest = compilation.stepsAfter latest := by
  rw [delta_eq hrecorded hcounts, hignore]
  split
  next hnil => exact hnil.symm
  · rfl

theorem flush_of_flush {flushed : Compilation} (hflush : compilation.flush = .ok flushed) :
    flushed.flush = .ok flushed := by
  obtain ⟨planned, -, -, -, hqueue, -⟩ := flush_cases hflush
  rw [flush_eq, hqueue]
  rfl

theorem flush_of_steps {applied : Option HistoryRecord} {delta : List Step}
    {asked : Compilation} (hsteps : compilation.steps applied = .ok (delta, asked)) :
    compilation.flush = .ok asked := by
  rw [steps_eq] at hsteps
  obtain ⟨flushed, hflush, hdelta⟩ := bind_eq_ok_iff.mp hsteps
  cases hdelta
  exact hflush

theorem steps_of_steps {applied : Option HistoryRecord} {delta : List Step}
    {asked : Compilation} (hsteps : compilation.steps applied = .ok (delta, asked))
    (again : Option HistoryRecord) : asked.steps again = compilation.steps again := by
  have hflush := flush_of_steps hsteps
  rw [steps_eq, steps_eq, flush_of_flush hflush, hflush]

end Compilation

/-! ## Transactions around a delta -/

/-- The settings under which deltas come with prelude and epilogue. -/
def Settings.bracketing (settings : Settings) : Settings :=
  { settings with ignoreTransactionStatements := false }

namespace Compilation

/-- The compilation under bracketing settings. -/
def bracketing (compilation : Compilation) : Compilation :=
  { compilation with settings := compilation.settings.bracketing }

theorem appendSteps_bracketing (compilation : Compilation) (steps : List Step) :
    compilation.bracketing.appendSteps steps =
      (compilation.appendSteps steps).map bracketing := by
  rw [appendSteps_eq, appendSteps_eq, bracketing]
  cases compilation.migrations.getLast? <;> rfl

theorem flush_bracketing (compilation : Compilation) :
    compilation.bracketing.flush = compilation.flush.map bracketing := by
  have hplan : planBatches compilation.bracketing.planner
      (compilation.bracketing.registry, []) compilation.bracketing.queue.batches =
        planBatches compilation.planner (compilation.registry, [])
          compilation.queue.batches := rfl
  have hempty : compilation.bracketing.queue.isEmpty = compilation.queue.isEmpty := rfl
  rw [flush_eq, flush_eq, hplan, hempty]
  split
  · rfl
  · cases planBatches compilation.planner (compilation.registry, [])
        compilation.queue.batches with
    | error error => rfl
    | ok planned =>
        have happend :=
          appendSteps_bracketing compilation (planned.2.map Step.schema)
        simp only [bind, Except.bind, happend]
        cases compilation.appendSteps (planned.2.map Step.schema) <;> rfl

theorem addStep_bracketing (compilation : Compilation) (step : Step) :
    compilation.bracketing.addStep step = (compilation.addStep step).map bracketing := by
  have hempty : compilation.bracketing.migrations.isEmpty = compilation.migrations.isEmpty :=
    rfl
  rw [addStep_eq, addStep_eq, hempty, flush_bracketing]
  split
  · rfl
  · cases compilation.flush with
    | error error => rfl
    | ok flushed => exact appendSteps_bracketing flushed [step]

theorem openMigration_bracketing (compilation : Compilation) :
    compilation.bracketing.openMigration.map (·.2) =
      (compilation.openMigration.map (·.2)).map bracketing := by
  rw [openMigration_eq, openMigration_eq, flush_bracketing]
  cases compilation.flush <;> rfl

theorem enqueue_bracketing (compilation : Compilation) (table : String) (action : Action) :
    compilation.bracketing.enqueue table action =
      (compilation.enqueue table action).map bracketing := by
  have hempty : compilation.bracketing.migrations.isEmpty = compilation.migrations.isEmpty :=
    rfl
  rw [enqueue_eq, enqueue_eq, hempty]
  split <;> rfl

/-- No command but the question for steps reads whether deltas are bracketed, and that
one keeps it to its answer. -/
theorem accept_bracketing (compilation : Compilation) (command : Command) :
    command.accept compilation.bracketing = (command.accept compilation).map bracketing := by
  have hadd : ∀ step, command.step? = some step →
      command.accept compilation.bracketing = (command.accept compilation).map bracketing := by
    intro step hstep
    rw [Command.accept_of_step? hstep, Command.accept_of_step? hstep, addStep_bracketing]
  cases command with
  | start =>
      rw [Command.accept_start, Command.accept_start]
      exact openMigration_bracketing compilation
  | enqueue table action =>
      rw [Command.accept_enqueue, Command.accept_enqueue]
      exact enqueue_bracketing compilation table action
  | sql query values => exact hadd _ rfl
  | script label => exact hadd _ rfl
  | asyncScript label => exact hadd _ rfl
  | flush =>
      rw [Command.accept_flush, Command.accept_flush]
      exact flush_bracketing compilation
  | steps applied =>
      rw [Command.accept_steps, Command.accept_steps]
      exact flush_bracketing compilation
  | rowTypes =>
      rw [Command.accept_rowTypes, Command.accept_rowTypes]
      exact flush_bracketing compilation

theorem acceptAll_bracketing (compilation : Compilation) (commands : List Command) :
    compilation.bracketing.acceptAll commands =
      (compilation.acceptAll commands).map bracketing :=
  foldlM_view accept_bracketing compilation commands

end Compilation

/-! ## Prefixes of a plan -/

namespace Plan

open Compilation

/-- The plan of the first migrations. -/
def take (plan : Plan) (count : Nat) : Plan :=
  { plan with migrations := plan.migrations.take count }

/-- Compiles the migrations and what is pending after the last of them. -/
def compileAll (plan : Plan) (settings : Settings) : Except MigrationError Compilation := do
  let compiled ← plan.compileWith settings
  compiled.flush

/-- The steps that a plan gives for a database with the given latest record. -/
def stepsFor (plan : Plan) (settings : Settings) (applied : Option HistoryRecord) :
    Except MigrationError (List Step) := do
  let compiled ← plan.compileWith settings
  let (delta, _) ← compiled.steps applied
  pure delta

variable {plan : Plan} {settings : Settings}

theorem settings_compileWith {declared : Compilation}
    (hcompile : plan.compileWith settings = .ok declared) : declared.settings = settings := by
  rw [← run_of_compileWith hcompile]
  exact settings_run (new settings) plan.commands

theorem compileWith_bracketing (plan : Plan) (settings : Settings) :
    plan.compileWith settings.bracketing = (plan.compileWith settings).map bracketing := by
  rw [compileWith_eq_acceptAll, compileWith_eq_acceptAll]
  exact acceptAll_bracketing (new settings) plan.commands

theorem compileAll_bracketing (plan : Plan) (settings : Settings) :
    plan.compileAll settings.bracketing = (plan.compileAll settings).map bracketing := by
  rw [compileAll, compileAll, compileWith_bracketing]
  cases plan.compileWith settings with
  | error error => rfl
  | ok declared => exact flush_bracketing declared

/-- What is known of a plan that is compiled without an error. -/
structure Compiled (plan : Plan) (settings : Settings) (compiled : Compilation) : Prop where
  settings_eq : compiled.settings = settings
  recorded : Recorded compiled.settings compiled.migrations
  length_eq : compiled.migrations.length = plan.migrations.length

theorem Compiled.counts {compiled : Compilation} (hcompiled : plan.Compiled settings compiled)
    (hcounts : settings.Counts plan.migrations.length) :
    compiled.settings.Counts compiled.migrations.length := by
  rw [hcompiled.settings_eq, hcompiled.length_eq]
  exact hcounts

theorem compiled_of_compileAll {compiled : Compilation}
    (hcompile : plan.compileAll settings = .ok compiled) : plan.Compiled settings compiled := by
  obtain ⟨declared, hdeclared, hflush⟩ := bind_eq_ok_iff.mp hcompile
  have hcontinues := continues_flush hflush
  obtain ⟨planned, -, hsettings, -⟩ := flush_cases hflush
  have hsame : compiled.settings = settings := by
    rw [hsettings, settings_compileWith hdeclared]
  refine ⟨hsame, ?_, ?_⟩
  · have hrecorded := recorded_run settings plan.commands
    rw [run_of_compileWith hdeclared] at hrecorded
    rw [hsame]
    exact recorded_of_grows (grows_of_continues settings hcontinues) hrecorded
  · calc compiled.migrations.length
        = declared.migrations.length := length_of_continues hcontinues
      _ = (new settings).migrations.length + plan.migrations.length :=
          DeclaredMigration.length_applyAll hdeclared
      _ = plan.migrations.length := Nat.zero_add _

/-- The first migrations of a plan are compiled as they are without the others. -/
theorem compileAll_take {whole : Compilation} (hcompile : plan.compileAll settings = .ok whole)
    {count : Nat} (hcount : count ≤ plan.migrations.length) :
    ∃ part, (plan.take count).compileAll settings = .ok part ∧
      part.migrations = whole.migrations.take count := by
  obtain ⟨declared, hdeclared, hflush⟩ := bind_eq_ok_iff.mp hcompile
  rw [compileWith, ← List.take_append_drop count plan.migrations, List.foldlM_append]
    at hdeclared
  obtain ⟨start, hstart, hrest⟩ := bind_eq_ok_iff.mp hdeclared
  have hpart : ∃ part, start.flush = .ok part ∧
      ∃ tail, whole.migrations = part.migrations ++ tail := by
    cases hdrop : plan.migrations.drop count with
    | nil =>
        rw [hdrop] at hrest
        cases hrest
        exact ⟨whole, hflush, [], (List.append_nil _).symm⟩
    | cons first rest =>
        rw [hdrop] at hrest
        obtain ⟨part, hpart, hbehind⟩ := DeclaredMigration.exists_append_applyAll hrest
        obtain ⟨tail, -, hwhole⟩ := exists_append_of_grows
          (grows_of_continues settings (continues_flush hflush)) hbehind
        exact ⟨part, hpart, tail, hwhole⟩
  obtain ⟨part, hpart, tail, hwhole⟩ := hpart
  have htake : (plan.take count).compileAll settings = .ok part :=
    bind_eq_ok_iff.mpr ⟨start, hstart, hpart⟩
  have hlength : part.migrations.length = count := by
    rw [(compiled_of_compileAll htake).length_eq]
    exact List.length_take_of_le hcount
  exact ⟨part, htake, by rw [hwhole, List.take_left' hlength]⟩

/-! ## The steps of a plan -/

theorem stepsFor_of_compileAll {compiled : Compilation}
    (hcompile : plan.compileAll settings = .ok compiled) (applied : Option HistoryRecord) :
    plan.stepsFor settings applied = .ok (compiled.delta (latestId settings applied)) := by
  obtain ⟨declared, hdeclared, hflush⟩ := bind_eq_ok_iff.mp hcompile
  have hsettings := (compiled_of_compileAll hcompile).settings_eq
  simp [stepsFor, hdeclared, steps_eq, hflush, hsettings, bind, Except.bind, pure, Except.pure]

theorem exists_compileAll {applied : Option HistoryRecord} {delta : List Step}
    (hsteps : plan.stepsFor settings applied = .ok delta) :
    ∃ compiled, plan.compileAll settings = .ok compiled := by
  obtain ⟨declared, hdeclared, hsteps⟩ := bind_eq_ok_iff.mp hsteps
  obtain ⟨⟨asked, compiled⟩, hasked, -⟩ := bind_eq_ok_iff.mp hsteps
  exact ⟨compiled, bind_eq_ok_iff.mpr ⟨declared, hdeclared, flush_of_steps hasked⟩⟩

/-- Where the number in front of the first migration comes round at the other end of the
words, it is behind all others, and a database without a record is taken to be up to
date. -/
theorem stepsFor_none_of_least {compiled : Compilation}
    (hleast : settings.firstMigrationId = -9223372036854775808)
    (hcompile : plan.compileAll settings = .ok compiled) :
    plan.stepsFor settings none = .ok [] := by
  have hlatest : latestId settings none = 9223372036854775807 := by
    rw [latestId, hleast]
    decide
  have htarget : compiled.targetId ≤ latestId settings none := by
    have hlt := Number.word_lt (compiled.nextId - 1)
    rw [hlatest, targetId]
    omega
  rw [stepsFor_of_compileAll hcompile, delta, decide_eq_true htarget, Bool.or_true, if_pos rfl]

section InRange

variable (hcounts : settings.Counts plan.migrations.length)
include hcounts

/-- Without prelude and epilogue, a delta is the steps of the migrations from some
place on. -/
theorem stepsFor_of_ignoring {compiled : Compilation}
    (hignore : settings.ignoreTransactionStatements = true)
    (hcompile : plan.compileAll settings = .ok compiled) (applied : Option HistoryRecord) :
    plan.stepsFor settings applied =
      .ok ((compiled.migrations.drop
        (latestId settings applied + 1 - settings.firstMigrationId).toNat).flatMap
          (·.steps)) := by
  have hcompiled := compiled_of_compileAll hcompile
  have hnumbers := hcompiled.counts hcounts
  have hdelta := delta_of_ignoring hcompiled.recorded hnumbers (hcompiled.settings_eq ▸ hignore)
  rw [stepsFor_of_compileAll hcompile, hdelta, stepsAfter_eq hcompiled.recorded hnumbers,
    hcompiled.settings_eq]

theorem stepsFor_none {compiled : Compilation}
    (hignore : settings.ignoreTransactionStatements = true)
    (hcompile : plan.compileAll settings = .ok compiled) :
    plan.stepsFor settings none = .ok compiled.allSteps := by
  have hplace : latestId settings none + 1 - settings.firstMigrationId = 0 := by
    rw [hcounts.latestId_none]
    omega
  rw [stepsFor_of_ignoring hcounts hignore hcompile, hplace]
  rfl

theorem stepsFor_some {compiled : Compilation}
    (hignore : settings.ignoreTransactionStatements = true)
    (hcompile : plan.compileAll settings = .ok compiled) {record : HistoryRecord} {id : Int}
    (hid : record.id = some id) {place : Nat}
    (hplace : (id + 1 - settings.firstMigrationId).toNat = place) :
    plan.stepsFor settings (some record) =
      .ok ((compiled.migrations.drop place).flatMap (·.steps)) := by
  have hlatest : latestId settings (some record) = id := by
    simp [latestId, hid]
  rw [stepsFor_of_ignoring hcounts hignore hcompile, hlatest, hplace]

theorem exists_stepsFor_take {compiled : Compilation}
    (hignore : settings.ignoreTransactionStatements = true)
    (hcompile : plan.compileAll settings = .ok compiled) {count : Nat}
    (hcount : count ≤ plan.migrations.length) :
    ∃ front back, (plan.take count).stepsFor settings none = .ok front ∧
      (∀ record : HistoryRecord,
        record.id = some (settings.firstMigrationId + count - 1) →
          plan.stepsFor settings (some record) = .ok back) ∧
      front ++ back = compiled.allSteps := by
  obtain ⟨part, hpart, hmigrations⟩ := compileAll_take hcompile hcount
  have hplace : (settings.firstMigrationId + count - 1 + 1 -
      settings.firstMigrationId).toNat = count := by omega
  have hwhole : part.allSteps ++ (compiled.migrations.drop count).flatMap (·.steps) =
      compiled.allSteps := by
    rw [allSteps, hmigrations, ← List.flatMap_append, List.take_append_drop, allSteps]
  have hpartCounts : settings.Counts (plan.take count).migrations.length :=
    hcounts.mono (List.length_take_le' _ _)
  exact ⟨part.allSteps, _, stepsFor_none hpartCounts hignore hpart,
    fun _ hid => stepsFor_some hcounts hignore hcompile hid hplace, hwhole⟩

theorem stepsFor_bracketing {body : List Step} {applied : Option HistoryRecord}
    (hignore : settings.ignoreTransactionStatements = true)
    (hbody : plan.stepsFor settings applied = .ok body) :
    plan.stepsFor settings.bracketing applied =
      .ok (if body = [] then [] else prelude ++ body ++ epilogue) := by
  obtain ⟨compiled, hcompile⟩ := exists_compileAll hbody
  have hcompiled := compiled_of_compileAll hcompile
  have hnumbers := hcompiled.counts hcounts
  have hbracketing : plan.compileAll settings.bracketing = .ok compiled.bracketing := by
    rw [compileAll_bracketing, hcompile]
    rfl
  have hbracketed :
      Recorded compiled.bracketing.settings compiled.bracketing.migrations :=
    hcompiled.recorded
  have hbracketedNumbers :
      compiled.bracketing.settings.Counts compiled.bracketing.migrations.length :=
    hnumbers
  have hdelta : compiled.stepsAfter (latestId settings applied) = body := by
    rw [stepsFor_of_compileAll hcompile,
      delta_of_ignoring hcompiled.recorded hnumbers (hcompiled.settings_eq ▸ hignore)] at hbody
    exact Except.ok.inj hbody
  calc plan.stepsFor settings.bracketing applied
      = .ok (compiled.bracketing.delta (latestId settings applied)) :=
        stepsFor_of_compileAll hbracketing applied
    _ = .ok (if compiled.stepsAfter (latestId settings applied) = [] then []
          else prelude ++ compiled.stepsAfter (latestId settings applied) ++ epilogue) :=
        congrArg Except.ok (delta_eq hbracketed hbracketedNumbers _)
    _ = .ok (if body = [] then [] else prelude ++ body ++ epilogue) := by rw [hdelta]

end InRange

/-- The steps of the first migrations, followed by those for a database at the last
of these, are the steps of the whole plan.  A database at the last migration or
beyond has nothing to do, and one in front of the first has all steps of all
migrations to do.  Asking for steps changes no later answer.  Where the settings ask
for it, each delta that is not empty is enclosed in one transaction, outside of which
foreign keys are switched off and on again.  The numbers that a database can be at are
machine words. -/
theorem stepsFor_take (plan : Plan) (settings : Settings) {whole : List Step}
    (hwords : ∀ count ≤ plan.migrations.length,
      Json.Decoder.isWord (settings.firstMigrationId + count - 1) = true)
    (hignore : settings.ignoreTransactionStatements = true)
    (hwhole : plan.stepsFor settings none = .ok whole) :
    (∀ count ≤ plan.migrations.length, ∃ front back,
        (plan.take count).stepsFor settings none = .ok front ∧
        (∀ record : HistoryRecord,
          record.id = some (settings.firstMigrationId + count - 1) →
            plan.stepsFor settings (some record) = .ok back) ∧
        front ++ back = whole) ∧
      (∀ (record : HistoryRecord) (id : Int), record.id = some id →
        (settings.firstMigrationId + plan.migrations.length - 1 ≤ id →
          plan.stepsFor settings (some record) = .ok []) ∧
        (id < settings.firstMigrationId →
          plan.stepsFor settings (some record) = .ok whole)) ∧
      (∀ declared asked applied delta, plan.compileWith settings = .ok declared →
        declared.steps applied = .ok (delta, asked) →
          asked.targetId = settings.firstMigrationId + plan.migrations.length - 1 ∧
            asked.allSteps = whole ∧
            ∀ again, asked.steps again = declared.steps again) ∧
      ∀ applied, ∃ body, plan.stepsFor settings applied = .ok body ∧
        plan.stepsFor settings.bracketing applied =
          .ok (if body = [] then []
            else [.sql "PRAGMA foreign_keys = OFF;" [], .sql "BEGIN TRANSACTION;" []] ++ body ++
              [.sql "COMMIT TRANSACTION;" [], .sql "PRAGMA foreign_keys = ON;" []]) := by
  have hcounts : settings.Counts plan.migrations.length := hwords
  obtain ⟨compiled, hcompile⟩ := exists_compileAll hwhole
  have hcompiled := compiled_of_compileAll hcompile
  have hlength := hcompiled.length_eq
  have hall : compiled.allSteps = whole := by
    rw [stepsFor_none hcounts hignore hcompile] at hwhole
    exact Except.ok.inj hwhole
  have hsplit : ∀ count ≤ plan.migrations.length, ∃ front back,
      (plan.take count).stepsFor settings none = .ok front ∧
        (∀ record : HistoryRecord,
          record.id = some (settings.firstMigrationId + count - 1) →
            plan.stepsFor settings (some record) = .ok back) ∧
        front ++ back = whole :=
    fun count hcount => hall ▸ exists_stepsFor_take hcounts hignore hcompile hcount
  have hdone : ∀ (record : HistoryRecord) (id : Int), record.id = some id →
      settings.firstMigrationId + plan.migrations.length - 1 ≤ id →
        plan.stepsFor settings (some record) = .ok [] := by
    intro record id hid hlast
    have hbeyond : compiled.migrations.length ≤
        (id + 1 - settings.firstMigrationId).toNat := by omega
    rw [stepsFor_some hcounts hignore hcompile hid rfl, List.drop_eq_nil_of_le hbeyond,
      List.flatMap_nil]
  have hfresh : ∀ (record : HistoryRecord) (id : Int), record.id = some id →
      id < settings.firstMigrationId → plan.stepsFor settings (some record) = .ok whole := by
    intro record id hid hfirst
    have hplace : (id + 1 - settings.firstMigrationId).toNat = 0 := by omega
    rw [stepsFor_some hcounts hignore hcompile hid hplace, List.drop_zero, ← hall, allSteps]
  have hagain : ∀ declared asked applied delta, plan.compileWith settings = .ok declared →
      declared.steps applied = .ok (delta, asked) →
        asked.targetId = settings.firstMigrationId + plan.migrations.length - 1 ∧
          asked.allSteps = whole ∧ ∀ again, asked.steps again = declared.steps again := by
    intro declared asked applied delta hdeclared hasked
    have hasking : plan.compileAll settings = .ok asked :=
      bind_eq_ok_iff.mpr ⟨declared, hdeclared, flush_of_steps hasked⟩
    have hsame : asked = compiled := Except.ok.inj (hasking.symm.trans hcompile)
    refine ⟨?_, hsame ▸ hall, steps_of_steps hasked⟩
    rw [hsame, targetId_eq (hcompiled.counts hcounts), hcompiled.settings_eq, hlength]
  exact ⟨hsplit, fun record id hid => ⟨hdone record id hid, hfresh record id hid⟩, hagain,
    fun applied => ⟨_, stepsFor_of_ignoring hcounts hignore hcompile applied,
      stepsFor_bracketing hcounts hignore
        (stepsFor_of_ignoring hcounts hignore hcompile applied)⟩⟩

/-- Two migrations with negative numbers, the second of which adds a column that is
pending when the steps are asked for. -/
def origins : Plan where
  settings := { firstMigrationId := -2, ignoreTransactionStatements := true }
  migrations := [⟨[.createTable "species" [{ name := "id", type := .identity }]]⟩,
    ⟨[.addColumn "species" { name := "origin", type := .text } none]⟩]

theorem stepsFor_take_origins :
    let whole : List Step := [.record .current (-2) "-",
      .schema (.createTable "species" [{ name := "id", type := .identity }]),
      .record .current (-1) "-",
      .schema (.addColumn "species" { name := "origin", type := .text })]
    origins.stepsFor origins.settings none = .ok whole ∧
      (∃ front back, (origins.take 1).stepsFor origins.settings none = .ok front ∧
        origins.stepsFor origins.settings (some { id := some (-2) }) = .ok back ∧
        front ++ back = whole) ∧
      ∃ bracketed,
        origins.stepsFor origins.settings.bracketing (some { id := some (-2) }) =
          .ok bracketed ∧
        bracketed.map Step.query? = [
          some "PRAGMA foreign_keys = OFF;", some "BEGIN TRANSACTION;",
          some "INSERT INTO \"migrations\" (\"id\", \"version\", \"timestamp\") VALUES (?, ?, ?);",
          some "ALTER TABLE \"species\" ADD COLUMN \"origin\" TEXT;",
          some "COMMIT TRANSACTION;", some "PRAGMA foreign_keys = ON;"] := by
  intro whole
  have hwhole : origins.stepsFor origins.settings none = .ok whole := rfl
  have hlast : origins.stepsFor origins.settings (some { id := some (-2) }) =
      .ok (whole.drop 2) := rfl
  obtain ⟨hsplit, -, -, hbracketed⟩ :=
    stepsFor_take origins origins.settings (by decide) rfl hwhole
  obtain ⟨front, back, hfront, hback, happend⟩ := hsplit 1 (by decide)
  obtain ⟨body, hbody, hbracketed⟩ := hbracketed (some { id := some (-2) })
  cases Except.ok.inj (hbody.symm.trans hlast)
  exact ⟨hwhole, ⟨front, back, hfront, hback { id := some (-2) } rfl, happend⟩, _, hbracketed,
    by decide⟩

end Plan

end SchemaMigration
