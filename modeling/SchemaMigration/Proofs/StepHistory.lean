import SchemaMigration.Proofs.DrainedBatches
import SchemaMigration.Proofs.MigrationHistory
import SchemaMigration.Proofs.Stages

/-!
# The steps of a run

Steps are only ever appended, and only to the last migration.  Read in order, the
steps of a run are what its accepted commands came to, in the order in which the
commands were given: declared actions wait and are compiled together, and a step that
is given as it stands has everything declared before it compiled in front of it.
-/

namespace SchemaMigration

open Relation (ReflTransGen)

/-! ## What stays -/

/-- Each migration stays in its place and keeps its steps, with further ones behind them
at most in the last. -/
def Extended (before after : List Migration) : Prop :=
  ∀ (index : Nat) (migration : Migration), before[index]? = some migration →
    ∃ added, after[index]? = some { migration with steps := migration.steps ++ added } ∧
      (index + 1 < before.length → added = [])

theorem length_le_of_grows {settings : Settings} {before after : List Migration}
    (hgrows : ReflTransGen (Grows settings) before after) : before.length ≤ after.length := by
  induction hgrows with
  | refl => exact Nat.le_refl _
  | tail _ hstep ih =>
      cases hstep with
      | opened => exact ih.trans (by simp)
      | continued hcontinues => exact ih.trans (length_of_continues (.single hcontinues)).ge

theorem extended_of_grows {settings : Settings} {before after : List Migration}
    (hgrows : ReflTransGen (Grows settings) before after) : Extended before after := by
  intro index migration hmigration
  induction hgrows with
  | refl => exact ⟨[], by simpa using hmigration, fun _ => rfl⟩
  | tail hearlier hstep ih =>
      have hlength := length_le_of_grows hearlier
      obtain ⟨added, hadded, hfinal⟩ := ih
      have hplace := (List.getElem?_eq_some_iff.mp hadded).1
      cases hstep with
      | opened => exact ⟨added, by rw [List.getElem?_append_left hplace, hadded], hfinal⟩
      | continued hcontinues =>
          obtain ⟨earlier, current, more⟩ := hcontinues
          rw [List.length_append, List.length_singleton] at hlength hplace
          by_cases hlast : index < earlier.length
          · rw [List.getElem?_append_left hlast] at hadded
            exact ⟨added, by rw [List.getElem?_append_left hlast, hadded], hfinal⟩
          · have hindex : index = earlier.length := by omega
            subst hindex
            rw [List.getElem?_concat_length] at hadded
            cases hadded
            refine ⟨added ++ more, ?_, fun hbefore => by omega⟩
            rw [List.getElem?_concat_length, List.append_assoc]

theorem flatMap_steps_of_grows {settings : Settings} {before after : List Migration}
    (hgrows : ReflTransGen (Grows settings) before after) :
    before.flatMap (·.steps) <+: after.flatMap (·.steps) := by
  induction hgrows with
  | refl => exact List.prefix_refl _
  | tail _ hstep ih =>
      refine ih.trans ?_
      cases hstep with
      | opened => simp
      | continued hcontinues =>
          obtain ⟨earlier, current, added⟩ := hcontinues
          simp

/-! ## What is appended -/

/-- Steps are appended to the last migration; where there is none, there are no steps. -/
inductive Appends : List Migration → List Step → List Migration → Prop
  | nothing (migrations : List Migration) : Appends migrations [] migrations
  | last (earlier : List Migration) (current : Migration) (added : List Step) :
      Appends (earlier ++ [current]) added
        (earlier ++ [{ current with steps := current.steps ++ added }])

theorem Appends.flatMap_steps {before after : List Migration} {added : List Step}
    (happends : Appends before added after) :
    after.flatMap (·.steps) = before.flatMap (·.steps) ++ added := by
  cases happends <;> simp

namespace Compilation

theorem appends_appendSteps {compilation next : Compilation} {steps : List Step}
    (happend : compilation.appendSteps steps = .ok next) :
    Appends compilation.migrations steps next.migrations := by
  obtain ⟨earlier, current, hmigrations, rfl⟩ := appendSteps_cases happend
  rw [hmigrations]
  exact .last earlier current steps

/-- A flush plans the batches of the queue and appends what they come to. -/
theorem appends_flush {compilation flushed : Compilation}
    (hflush : compilation.flush = .ok flushed) :
    ∃ statements, planBatches compilation.planner (compilation.registry, [])
        compilation.queue.batches = .ok (flushed.registry, statements) ∧
      Appends compilation.migrations (statements.map Step.schema) flushed.migrations := by
  rw [flush_eq] at hflush
  split at hflush
  next hempty =>
    cases hflush
    have hbatches : compilation.queue.batches = [] := by simpa [Queue.isEmpty] using hempty
    exact ⟨[], by rw [hbatches]; rfl, .nothing _⟩
  · obtain ⟨planned, hplan, hflush⟩ := bind_eq_ok_iff.mp hflush
    obtain ⟨appended, happend, hflushed⟩ := bind_eq_ok_iff.mp hflush
    have happends := appends_appendSteps happend
    cases hflushed
    exact ⟨planned.2, hplan, happends⟩

theorem flush_of_addStep {compilation next : Compilation} {step : Step}
    (hadd : compilation.addStep step = .ok next) :
    ∃ flushed, compilation.flush = .ok flushed ∧ flushed.appendSteps [step] = .ok next := by
  rw [addStep_eq] at hadd
  split at hadd
  · cases hadd
  · exact bind_eq_ok_iff.mp hadd

end Compilation

/-! ## What is given -/

namespace Step

/-- Whether a step was given as it stands.  The others carry out declared actions or
record their migration. -/
def isGiven : Step → Bool
  | sql _ _ | script _ | asyncScript _ => true
  | schema _ | record _ _ _ => false

theorem filter_isGiven_schema (statements : List Statement) :
    (statements.map schema).filter isGiven = [] := by
  rw [List.filter_map]
  simp [Function.comp_def, isGiven]

end Step

namespace Reply

def isRefused : Reply → Bool
  | refused _ => true
  | done | opened _ | steps _ | document _ => false

end Reply

namespace Command

theorem isRefused_of_attempt {compilation next : Compilation} {command : Command}
    {reply : Reply} (hattempt : command.attempt compilation = .ok (reply, next)) :
    reply.isRefused = false := by
  rw [attempt_eq] at hattempt
  cases command
  all_goals
    obtain ⟨result, -, hresult⟩ := bind_eq_ok_iff.mp hattempt
    cases hresult
    rfl

/-- A command that is refused leaves the compilation as it was; any other has its effect. -/
theorem perform_refused_or (compilation : Compilation) (command : Command) :
    ((command.perform compilation).1.isRefused = true ∧
        (command.perform compilation).2 = compilation) ∨
      (command.perform compilation).1.isRefused = false ∧
        Effect compilation (command.perform compilation).2 command := by
  rw [perform_eq]
  cases hattempt : command.attempt compilation with
  | error error => exact Or.inl ⟨rfl, rfl⟩
  | ok result => exact Or.inr ⟨isRefused_of_attempt hattempt, effect_of_attempt hattempt⟩

theorem isGiven_of_step? {command : Command} {step : Step} (hstep : command.step? = some step) :
    step.isGiven = true := by
  cases command <;> cases hstep <;> rfl

/-- Whether a command asks for something to be done.  The others only look at what has
been compiled, once everything is. -/
def declares : Command → Bool
  | start | enqueue _ _ | sql _ _ | script _ | asyncScript _ => true
  | flush | steps _ | rowTypes => false

theorem declares_of_step? {command : Command} {step : Step} (hstep : command.step? = some step) :
    command.declares = true := by
  cases command <;> cases hstep <;> rfl

theorem declares_of_query {command : Command} (hflushes : command.flushes = true)
    (hopen : command ≠ start) (hstep : command.step? = none) : command.declares = false := by
  cases command <;> simp_all [declares, flushes, step?]

end Command

namespace Compilation

variable {α : Type}

theorem run_append (compilation : Compilation) (first second : List Command) :
    compilation.run (first ++ second) = (compilation.run first).run second :=
  List.foldl_append

/-- What is collected from the commands of a run, from each as it is performed. -/
def collect (observe : Compilation → Command → List α) :
    Compilation → List Command → List α
  | _, [] => []
  | compilation, command :: rest =>
      observe compilation command ++ collect observe (command.perform compilation).2 rest

theorem collect_concat (observe : Compilation → Command → List α) (compilation : Compilation)
    (commands : List Command) (last : Command) :
    collect observe compilation (commands ++ [last]) =
      collect observe compilation commands ++ observe (compilation.run commands) last := by
  induction commands generalizing compilation with
  | nil => simp [collect, run]
  | cons first rest ih =>
      rw [List.cons_append, collect, collect, ih, List.append_assoc]
      rfl

/-- The step that a command gives, with the count of the migrations of which the last is
current. -/
def givenBy (compilation : Compilation) (command : Command) : List (Nat × Step) :=
  if (command.perform compilation).1.isRefused then []
  else command.step?.toList.map fun step => (compilation.migrations.length, step)

/-- The steps that the commands of a run give and are not refused, in their order. -/
def given (compilation : Compilation) (commands : List Command) : List (Nat × Step) :=
  collect givenBy compilation commands

/-- The command itself where it asks for something and is not refused. -/
def acceptedBy (compilation : Compilation) (command : Command) : List Command :=
  if (command.perform compilation).1.isRefused || !command.declares then [] else [command]

/-- The commands of a run that ask for something and are not refused, in their order. -/
def accepted (compilation : Compilation) (commands : List Command) : List Command :=
  collect acceptedBy compilation commands

end Compilation

/-- The given steps of each migration are those of a list that were given while it was
the last, and all of the list were given for one of the migrations. -/
structure Attributed (migrations : List Migration) (given : List (Nat × Step)) : Prop where
  steps_eq : ∀ (index : Nat) (migration : Migration), migrations[index]? = some migration →
    migration.steps.filter Step.isGiven = (given.filter (·.1 = index + 1)).map (·.2)
  known : ∀ entry ∈ given, entry.1 ≤ migrations.length

namespace Attributed

variable {before after : List Migration} {given : List (Nat × Step)}

theorem opened (hgiven : Attributed before given) (settings : Settings) :
    Attributed (before ++ [.opened settings before.length]) given where
  steps_eq index migration hmigration := by
    rw [List.getElem?_append] at hmigration
    split at hmigration
    · exact hgiven.steps_eq index migration hmigration
    next hge =>
      obtain ⟨hindex, rfl⟩ :
          index - before.length = 0 ∧ Migration.opened settings before.length = migration := by
        simpa using List.getElem?_eq_some_iff.mp hmigration
      have hnone : given.filter (·.1 = index + 1) = [] := by
        rw [List.filter_eq_nil_iff]
        intro entry hentry hsame
        have hknown := hgiven.known entry hentry
        rw [decide_eq_true_eq] at hsame
        omega
      rw [hnone]
      rfl
  known entry hentry := by
    have hknown := hgiven.known entry hentry
    simp
    omega

/-- Steps that are appended count for the last migration. -/
theorem append {added : List Step} (hgiven : Attributed before given)
    (happends : Appends before added after) :
    Attributed after
      (given ++ (added.filter Step.isGiven).map fun step => (before.length, step)) := by
  cases happends with
  | nothing => simpa using hgiven
  | last earlier current added =>
      rw [List.length_append, List.length_singleton]
      constructor
      · intro index migration hmigration
        rw [List.filter_append, List.map_append, List.filter_map]
        by_cases hlast : index = earlier.length
        · subst hlast
          rw [List.getElem?_concat_length] at hmigration
          cases hmigration
          have hcurrent := hgiven.steps_eq earlier.length current List.getElem?_concat_length
          simp [hcurrent, Function.comp_def]
        · have hplace := (List.getElem?_eq_some_iff.mp hmigration).1
          rw [List.length_append, List.length_singleton] at hplace
          have hearlier : index < earlier.length := by omega
          rw [List.getElem?_append_left hearlier] at hmigration
          have hbefore := hgiven.steps_eq index migration
            (by rw [List.getElem?_append_left hearlier, hmigration])
          have hother : ¬earlier.length = index := fun hsame => hlast hsame.symm
          simp [hbefore, Function.comp_def, hother]
      · intro entry hentry
        rw [List.length_append, List.length_singleton]
        rcases List.mem_append.mp hentry with hold | hnew
        · simpa using hgiven.known entry hold
        · obtain ⟨step, -, rfl⟩ := List.mem_map.mp hnew
          exact Nat.le_refl _

/-- A flush appends statements only, which are not given. -/
theorem flush {compilation flushed : Compilation} (hgiven : Attributed compilation.migrations given)
    (hflush : compilation.flush = .ok flushed) : Attributed flushed.migrations given := by
  obtain ⟨statements, -, happends⟩ := Compilation.appends_flush hflush
  have happended := hgiven.append happends
  rwa [Step.filter_isGiven_schema, List.map_nil, List.append_nil] at happended

end Attributed

namespace Compilation

variable {compilation : Compilation} {given : List (Nat × Step)}

theorem attributed_perform (hgiven : Attributed compilation.migrations given)
    (command : Command) :
    Attributed (command.perform compilation).2.migrations
      (given ++ compilation.givenBy command) := by
  rw [givenBy]
  rcases command.perform_refused_or compilation with ⟨hrefused, hsame⟩ | ⟨haccepted, heffect⟩
  · rw [hsame, if_pos hrefused, List.append_nil]
    exact hgiven
  · rw [if_neg (by simp [haccepted])]
    generalize (command.perform compilation).2 = next at heffect ⊢
    cases heffect with
    | opening hopen =>
        obtain ⟨flushed, hflush, hmigrations⟩ := migrations_openMigration hopen
        rw [hmigrations, Command.step?, Option.toList_none, List.map_nil, List.append_nil]
        exact (hgiven.flush hflush).opened compilation.settings
    | declaration henqueue =>
        obtain ⟨-, rfl⟩ := enqueue_cases henqueue
        simpa [Command.step?] using hgiven
    | addition hstep hadd =>
        obtain ⟨flushed, hflush, happend⟩ := flush_of_addStep hadd
        -- The flush leaves the same migration current, so the step counts for the one that
        -- was current before.
        have happended := (hgiven.flush hflush).append (appends_appendSteps happend)
        rw [length_of_continues (continues_flush hflush)] at happended
        simpa [hstep, Command.isGiven_of_step? hstep] using happended
    | query _ _ hstep hflush =>
        rw [hstep, Option.toList_none, List.map_nil, List.append_nil]
        exact hgiven.flush hflush

theorem attributed_run (settings : Settings) (commands : List Command) :
    Attributed ((new settings).run commands).migrations ((new settings).given commands) := by
  induction commands using List.reverseRecOn with
  | nil => exact ⟨by simp [new, run], by simp [given, collect]⟩
  | append_singleton earlier last ih =>
      rw [run_concat, given, collect_concat]
      exact attributed_perform ih last

end Compilation

/-! ## Records -/

/-- The columns of the history table: the identifier, the version and the time. -/
def HistoryLayout.columns : HistoryLayout → List String
  | current => ["id", "version", "timestamp"]
  | legacy => ["revision", "app_version", "date_migrated"]

theorem HistoryLayout.insertSql_eq (layout : HistoryLayout) :
    layout.insertSql = "INSERT INTO \"migrations\" (" ++
      Statement.nameList layout.columns ++ ") VALUES (?, ?, ?);" := by
  cases layout <;> decide

/-- A step that enters a migration into the history table, with the time at which it is
written out. -/
structure Step.Enters (step : Step) (layout : HistoryLayout) (number : Int) (version : String) :
    Prop where
  query_eq : step.query? = some ("INSERT INTO \"migrations\" (" ++
    Statement.nameList layout.columns ++ ") VALUES (?, ?, ?);")
  values_eq : ∀ now : BoundValue, step.values id now =
    [.literal (.integer number), .literal (.text version), now]

theorem Step.enters_record (layout : HistoryLayout) (number : Int) (version : String) :
    (Step.record layout number version).Enters layout number version where
  query_eq := congrArg some layout.insertSql_eq
  values_eq _ := rfl

/-- Each migration of a run has the number of its place, which is the sum itself where that is
a word, and its first step enters it into the history table. -/
theorem enters_of_recorded {settings : Settings} {migrations : List Migration}
    (hrecorded : Recorded settings migrations) {index : Nat} {migration : Migration}
    (hmigration : migrations[index]? = some migration) :
    migration.id = Number.word (index + settings.firstMigrationId) ∧
      (Json.Decoder.isWord (index + settings.firstMigrationId) = true →
        migration.id = index + settings.firstMigrationId) ∧
      ∃ first rest, migration.steps = first :: rest ∧
        first.Enters settings.migrationTable migration.id settings.appVersion := by
  obtain ⟨hid, hhead⟩ := hrecorded index migration hmigration
  obtain ⟨rest, hsteps⟩ := List.head?_eq_some_iff.mp hhead
  exact ⟨hid, fun hword => hid.trans (Number.word_of_isWord hword), _, rest, hsteps,
    Step.enters_record _ _ _⟩

/-! ## What declarations come to -/

namespace Planner

/-- Batches one after another, each of them in the stages of its segments, with all that
they write. -/
inductive Drains (planner : Planner) : Registry → List Batch → List Statement → Registry → Prop
  | nil (registry : Registry) : Drains planner registry [] [] registry
  | cons {registry middle next : Registry} {batch : Batch} {rest : List Batch}
      {stages : List Stage} {statements : List Statement}
      (isCut : Segment.IsCut batch.actions (stages.map Stage.segment))
      (passes : planner.Passes batch.table registry stages middle)
      (later : Drains planner middle rest statements next) :
      Drains planner registry (batch :: rest) (stages.flatMap Stage.statements ++ statements) next

theorem drains_of_planBatches {planner : Planner} {batches : List Batch}
    {planned result : Registry × List Statement}
    (hplan : Compilation.planBatches planner planned batches = .ok result) :
    ∃ statements, result.2 = planned.2 ++ statements ∧
      planner.Drains planned.1 batches statements result.1 := by
  induction batches generalizing planned with
  | nil =>
      cases hplan
      exact ⟨[], by simp, .nil _⟩
  | cons batch rest ih =>
      obtain ⟨middle, changed, hbatch, hrest⟩ := Compilation.planBatches_cons_eq_ok.mp hplan
      obtain ⟨stages, hcut, hpasses, hstatements, -⟩ := stages_of_plan hbatch
      obtain ⟨statements, hresult, hlater⟩ := ih hrest
      refine ⟨stages.flatMap Stage.statements ++ statements, ?_, .cons hcut hpasses hlater⟩
      rw [hresult, hstatements, List.append_assoc]

end Planner

/-! ## The order of the steps -/

/-- What a run has done, command by command, where declarations that were compiled
together are one entry. -/
inductive Entry
  | opened (id : Int)
  | compiled (declarations : List Declaration) (statements : List Statement)
  | given (command : Command)

namespace Entry

/-- The steps that an entry appends. -/
def steps (settings : Settings) : Entry → List Step
  | opened id => [.record settings.migrationTable id settings.appVersion]
  | compiled _ statements => statements.map .schema
  | given command => command.step?.toList

/-- The commands that an entry answers. -/
def commands : Entry → List Command
  | opened _ => [.start]
  | compiled declarations _ => declarations.map Declaration.command
  | given command => [command]

end Entry

/-- Entries one after another, with the registry that they leave: declarations are
compiled from the registry that the entries before left, all of them and those that share
a table name in their order. -/
inductive Journal (planner : Planner) : List Entry → Registry → Prop
  | nil : Journal planner [] .empty
  | opened {entries : List Entry} {registry : Registry} (id : Int) :
      Journal planner entries registry → Journal planner (entries ++ [.opened id]) registry
  | compiled {entries : List Entry} {registry next : Registry}
      {declarations : List Declaration} {order : List Nat} {statements : List Statement} :
      Journal planner entries registry →
        Queue.Reorders order declarations (Queue.empty.declareAll declarations).declarations →
          planner.Drains registry (Queue.empty.declareAll declarations).batches statements next →
            Journal planner (entries ++ [.compiled declarations statements]) next
  | given {entries : List Entry} {registry : Registry} (command : Command) :
      Journal planner entries registry → Journal planner (entries ++ [.given command]) registry

namespace Compilation

/-- The accepted commands have come to the entries, in their order, but for those at the
end that declare what still waits.  The steps are those of the entries. -/
structure Chronicled (compilation : Compilation) (accepted : List Command)
    (entries : List Entry) (waiting : List Declaration) : Prop where
  journal : Journal compilation.planner entries compilation.registry
  allSteps_eq : compilation.allSteps = entries.flatMap (Entry.steps compilation.settings)
  queue_eq : compilation.queue = Queue.empty.declareAll waiting
  accepted_eq : accepted =
    entries.flatMap Entry.commands ++ waiting.map Declaration.command

variable {compilation flushed next : Compilation} {accepted : List Command}
  {entries : List Entry} {waiting : List Declaration}

theorem Chronicled.flush (hchronicled : compilation.Chronicled accepted entries waiting)
    (hflush : compilation.flush = .ok flushed) :
    ∃ statements, flushed.Chronicled accepted (entries ++ [.compiled waiting statements]) [] := by
  obtain ⟨-, -, hsettings, -, hqueue, -⟩ := flush_cases hflush
  obtain ⟨statements, hplan, happends⟩ := appends_flush hflush
  have hplanner : flushed.planner = compilation.planner := by
    rw [planner, planner, capabilities, capabilities, hsettings]
  refine ⟨statements, ?_, ?_, hqueue, ?_⟩
  · rw [hplanner]
    rw [hchronicled.queue_eq] at hplan
    obtain ⟨order, hreorders⟩ := Queue.exists_reorders waiting
    obtain ⟨drained, hdrained, hdrains⟩ := Planner.drains_of_planBatches hplan
    cases hdrained
    exact hchronicled.journal.compiled hreorders hdrains
  · rw [allSteps, happends.flatMap_steps, ← allSteps, hchronicled.allSteps_eq, hsettings]
    simp [Entry.steps]
  · rw [hchronicled.accepted_eq]
    simp [Entry.commands]

/-- With nothing waiting, an entry that changes no table follows. -/
theorem Chronicled.follow (hchronicled : compilation.Chronicled accepted entries [])
    (entry : Entry) (hjournal : ∀ {registry}, Journal compilation.planner entries registry →
      Journal compilation.planner (entries ++ [entry]) registry)
    (hsettings : next.settings = compilation.settings)
    (hregistry : next.registry = compilation.registry)
    (hqueue : next.queue = compilation.queue)
    (hsteps : next.allSteps = compilation.allSteps ++ entry.steps compilation.settings) :
    next.Chronicled (accepted ++ entry.commands) (entries ++ [entry]) [] := by
  have hplanner : next.planner = compilation.planner := by
    rw [planner, planner, capabilities, capabilities, hsettings]
  constructor
  · rw [hplanner, hregistry]
    exact hjournal hchronicled.journal
  · rw [hsteps, hchronicled.allSteps_eq, hsettings]
    simp
  · rw [hqueue, hchronicled.queue_eq]
  · rw [hchronicled.accepted_eq]
    simp

theorem Chronicled.perform (hchronicled : compilation.Chronicled accepted entries waiting)
    (command : Command) :
    ∃ entries waiting, (command.perform compilation).2.Chronicled
      (accepted ++ compilation.acceptedBy command) entries waiting := by
  rw [acceptedBy]
  rcases command.perform_refused_or compilation with ⟨hrefused, hsame⟩ | ⟨haccepted, heffect⟩
  · refine ⟨entries, waiting, ?_⟩
    rw [hsame, hrefused, Bool.true_or, if_pos rfl, List.append_nil]
    exact hchronicled
  · rw [haccepted, Bool.false_or]
    -- A flush makes one entry of everything that waits; the command's own entry follows it.
    generalize (command.perform compilation).2 = next at heffect ⊢
    cases heffect with
    | opening hopen =>
        rw [openMigration_eq] at hopen
        obtain ⟨flushed, hflush, hnext⟩ := bind_eq_ok_iff.mp hopen
        obtain ⟨statements, hflushed⟩ := hchronicled.flush hflush
        cases hnext
        refine ⟨_, _, hflushed.follow (.opened flushed.nextId) (.opened _) rfl rfl rfl ?_⟩
        simp [allSteps, Entry.steps]
    | declaration henqueue =>
        obtain ⟨-, rfl⟩ := enqueue_cases henqueue
        rename_i table action
        refine ⟨entries, waiting ++ [⟨table, action⟩], ?_⟩
        constructor
        · exact hchronicled.journal
        · exact hchronicled.allSteps_eq
        · rw [Queue.declareAll_concat, ← hchronicled.queue_eq]
          rfl
        · rw [hchronicled.accepted_eq]
          simp [Command.declares, Declaration.command]
    | addition hstep hadd =>
        obtain ⟨flushed, hflush, happend⟩ := flush_of_addStep hadd
        obtain ⟨statements, hflushed⟩ := hchronicled.flush hflush
        have happends := appends_appendSteps happend
        obtain ⟨earlier, current, hmigrations, rfl⟩ := appendSteps_cases happend
        rw [Command.declares_of_step? hstep]
        refine ⟨_, _, hflushed.follow (.given command) (.given _) rfl rfl rfl ?_⟩
        rw [allSteps, happends.flatMap_steps, Entry.steps, hstep]
        rfl
    | query hflushes hopen hstep hflush =>
        obtain ⟨statements, hflushed⟩ := hchronicled.flush hflush
        rw [Command.declares_of_query hflushes hopen hstep]
        exact ⟨_, _, by simpa using hflushed⟩

theorem chronicled_run (settings : Settings) (commands : List Command) :
    ∃ entries waiting, ((new settings).run commands).Chronicled
      ((new settings).accepted commands) entries waiting := by
  induction commands using List.reverseRecOn with
  | nil => exact ⟨[], [], .nil, rfl, rfl, rfl⟩
  | append_singleton earlier last ih =>
      obtain ⟨entries, waiting, hchronicled⟩ := ih
      rw [run_concat, Compilation.accepted, collect_concat]
      exact hchronicled.perform last

/-- A step that is given and not refused is the last one, with nothing left waiting. -/
theorem last_of_given (compilation : Compilation) {command : Command} {step : Step}
    (hstep : command.step? = some step)
    (haccepted : (command.perform compilation).1.isRefused = false) :
    (command.perform compilation).2.queue = .empty ∧
      ∃ (earlier : List Migration) (current : Migration),
        (command.perform compilation).2.migrations =
          earlier ++ [{ current with steps := current.steps ++ [step] }] := by
  rcases command.perform_refused_or compilation with ⟨hrefused, -⟩ | ⟨-, heffect⟩
  · rw [haccepted] at hrefused
    cases hrefused
  · generalize (command.perform compilation).2 = next at heffect ⊢
    cases heffect with
    | opening hopen => cases hstep
    | declaration henqueue => cases hstep
    | addition hadded hadd =>
        cases hstep.symm.trans hadded
        obtain ⟨flushed, hflush, happend⟩ := flush_of_addStep hadd
        obtain ⟨-, -, -, -, hqueue, -⟩ := flush_cases hflush
        obtain ⟨earlier, current, -, rfl⟩ := appendSteps_cases happend
        exact ⟨hqueue, earlier, current, rfl⟩
    | query _ _ hnone _ => cases hstep.symm.trans hnone

/-- After any run, each migration has the number of its place, counted in machine words, and
begins with the INSERT that enters it into the history table.  Later commands leave every
step in its place, and append only to the last migration or behind it.  The given steps of a
migration are those of the accepted commands that found it last.  A given step that is
accepted is the last one, and nothing waits behind it.  The steps are what the accepted
commands came to in their order, where declarations come to the stages of their batches. -/
theorem history_run (settings : Settings) (commands : List Command) :
    (∀ (index : Nat) (migration : Migration),
        ((new settings).run commands).migrations[index]? = some migration →
          migration.id = Number.word (index + settings.firstMigrationId) ∧
            (Json.Decoder.isWord (index + settings.firstMigrationId) = true →
              migration.id = index + settings.firstMigrationId) ∧
            ∃ first rest, migration.steps = first :: rest ∧
              first.Enters settings.migrationTable migration.id settings.appVersion) ∧
      (∀ later : List Command,
        Extended ((new settings).run commands).migrations
            ((new settings).run (commands ++ later)).migrations ∧
          ((new settings).run commands).allSteps <+:
            ((new settings).run (commands ++ later)).allSteps) ∧
      (∀ (index : Nat) (migration : Migration),
        ((new settings).run commands).migrations[index]? = some migration →
          migration.steps.filter Step.isGiven =
            (((new settings).given commands).filter (·.1 = index + 1)).map (·.2)) ∧
      (∀ (command : Command) (step : Step), command.step? = some step →
        (command.perform ((new settings).run commands)).1.isRefused = false →
          ((new settings).run (commands ++ [command])).queue = .empty ∧
            ∃ (earlier : List Migration) (current : Migration),
              ((new settings).run (commands ++ [command])).migrations =
                earlier ++ [{ current with steps := current.steps ++ [step] }]) ∧
      ∃ entries waiting, ((new settings).run commands).Chronicled
        ((new settings).accepted commands) entries waiting := by
  refine ⟨fun _ _ hmigration => enters_of_recorded (recorded_run settings commands) hmigration,
    fun later => ?_, (attributed_run settings commands).steps_eq,
    fun command step hstep haccepted => ?_, chronicled_run settings commands⟩
  · have hgrows := grows_run ((new settings).run commands) later
    rw [← run_append] at hgrows
    exact ⟨extended_of_grows hgrows, flatMap_steps_of_grows hgrows⟩
  · rw [run_concat]
    exact last_of_given _ hstep haccepted

/-- A run in which steps are given before a migration is open, between declarations, and
behind a declaration that cannot be compiled. -/
def interleaved : List Command :=
  [.script "early", .start,
    .enqueue "people" (.createTable [{ name := "id", type := .identity }]),
    .sql "ANALYZE;" [], .enqueue "people" (.renameTable "persons"), .steps none, .script "fill",
    .start, .asyncScript "check", .enqueue "places" .dropTable, .sql "VACUUM;" []]

theorem given_interleaved :
    ∃ first second, ((new {}).run interleaved).migrations = [first, second] ∧
      first.steps.map Step.query? =
        [some "INSERT INTO \"migrations\" (\"id\", \"version\", \"timestamp\") VALUES (?, ?, ?);",
          some "CREATE TABLE \"people\" (\"id\" INTEGER PRIMARY KEY AUTOINCREMENT);",
          some "ANALYZE;",
          some "CREATE TABLE \"persons_tmp\" (\"id\" INTEGER PRIMARY KEY AUTOINCREMENT);",
          some "INSERT INTO \"persons_tmp\" (\"id\") SELECT \"id\" FROM \"people\";",
          some "DROP TABLE \"people\";",
          some "ALTER TABLE \"persons_tmp\" RENAME TO \"persons\";", none] ∧
      (∃ opening rest, second.steps = opening :: rest ∧ opening.Enters .current 2 "-") ∧
      first.steps.filter Step.isGiven = [.sql "ANALYZE;" [], .script "fill"] ∧
      second.steps.filter Step.isGiven = [.asyncScript "check"] ∧
      (new {}).accepted interleaved =
        [.start, .enqueue "people" (.createTable [{ name := "id", type := .identity }]),
          .sql "ANALYZE;" [], .enqueue "people" (.renameTable "persons"), .script "fill", .start,
          .asyncScript "check", .enqueue "places" .dropTable] ∧
      ((new {}).run (interleaved.take 6 ++ [.script "fill"])).queue = .empty := by
  have htexts : (((new {}).run interleaved).migrations.map fun migration =>
      migration.steps.map Step.query?) =
        [[some "INSERT INTO \"migrations\" (\"id\", \"version\", \"timestamp\") VALUES (?, ?, ?);",
          some "CREATE TABLE \"people\" (\"id\" INTEGER PRIMARY KEY AUTOINCREMENT);",
          some "ANALYZE;",
          some "CREATE TABLE \"persons_tmp\" (\"id\" INTEGER PRIMARY KEY AUTOINCREMENT);",
          some "INSERT INTO \"persons_tmp\" (\"id\") SELECT \"id\" FROM \"people\";",
          some "DROP TABLE \"people\";",
          some "ALTER TABLE \"persons_tmp\" RENAME TO \"persons\";", none],
        [some "INSERT INTO \"migrations\" (\"id\", \"version\", \"timestamp\") VALUES (?, ?, ?);",
          none]] := by
    decide
  have hgiven : (new {}).given interleaved =
      [(1, .sql "ANALYZE;" []), (1, .script "fill"), (2, .asyncScript "check")] := by
    decide
  obtain ⟨hopens, -, hsteps, -, -⟩ := history_run {} interleaved
  obtain ⟨-, -, -, hlast, -⟩ := history_run {} (interleaved.take 6)
  have hfill := hlast (.script "fill") (.script "fill") rfl (by decide)
  obtain ⟨first, others, hmigrations, hfirst, hothers⟩ := List.map_eq_cons_iff.mp htexts
  obtain ⟨second, rfl, -⟩ := List.map_eq_singleton_iff.mp hothers
  rw [hmigrations] at hopens hsteps
  rw [hgiven] at hsteps
  obtain ⟨-, hnumber, opening, rest, hopening, henters⟩ := hopens 1 second rfl
  have htwo : second.id = 2 := hnumber (by decide)
  rw [htwo] at henters
  exact ⟨first, second, hmigrations, hfirst, ⟨opening, rest, hopening, henters⟩,
    hsteps 0 first rfl, hsteps 1 second rfl, by decide, hfill.1⟩

end Compilation

end SchemaMigration
