import SchemaMigration.Migrator
import SchemaMigration.Proofs.Refusals

/-!
# What the dialect decides

Two compilations whose settings differ in the dialect and its version alone
accept the same commands, refuse the others for the same reason and track the
same tables.  The dialect shows in the statements, and in the copy parameters
that still wait for a rebuild.
-/

namespace SchemaMigration

/-- Two computations are accepted with related results, or refused for the same
reason, which is not that an engine lacks a form. -/
inductive SameOutcome {α β : Type} (related : α → β → Prop) :
    Except MigrationError α → Except MigrationError β → Prop
  | accepted {first : α} {second : β} (hrelated : related first second) :
      SameOutcome related (.ok first) (.ok second)
  | refused {error : MigrationError} (hkind : error.kind ≠ .unsupportedOperation) :
      SameOutcome related (.error error) (.error error)

namespace SameOutcome

variable {α β γ δ ι : Type} {related : α → β → Prop} {related' : γ → δ → Prop}

theorem bind {first : Except MigrationError α} {second : Except MigrationError β}
    {next : α → Except MigrationError γ} {next' : β → Except MigrationError δ}
    (hsame : SameOutcome related first second)
    (hnext : ∀ a b, related a b → SameOutcome related' (next a) (next' b)) :
    SameOutcome related' (first >>= next) (second >>= next') := by
  cases hsame with
  | accepted hrelated => exact hnext _ _ hrelated
  | refused hkind => exact refused hkind

theorem foldlM {step : α → ι → Except MigrationError α} {step' : β → ι → Except MigrationError β}
    {items : List ι}
    (hstep : ∀ item ∈ items, ∀ a b, related a b → SameOutcome related (step a item) (step' b item))
    {start : α} {start' : β} (hstart : related start start') :
    SameOutcome related (items.foldlM step start) (items.foldlM step' start') := by
  induction items generalizing start start' with
  | nil => exact accepted hstart
  | cons first rest ih =>
      rw [List.forall_mem_cons] at hstep
      rw [List.foldlM_cons, List.foldlM_cons]
      exact (hstep.1 start start' hstart).bind fun a b hrelated => ih hstep.2 hrelated

theorem map {first : Except MigrationError α} {second : Except MigrationError β} {f : α → γ}
    {g : β → δ} (hsame : SameOutcome related first second)
    (hmap : ∀ a b, related a b → related' (f a) (g b)) :
    SameOutcome related' (first.map f) (second.map g) := by
  cases hsame with
  | accepted hrelated => exact accepted (hmap _ _ hrelated)
  | refused hkind => exact refused hkind

/-- Computations that agree through a view of their results. -/
theorem of_map_eq {view : α → γ} {first second : Except MigrationError α}
    (hview : first.map view = second.map view)
    (hkind : ∀ error, first = .error error → error.kind ≠ .unsupportedOperation) :
    SameOutcome (fun a b => view a = view b) first second := by
  cases first with
  | ok a =>
      cases second with
      | ok b => exact accepted (Except.ok.inj hview)
      | error error => cases hview
  | error error =>
      cases second with
      | ok b => cases hview
      | error other =>
          obtain rfl : error = other := Except.error.inj hview
          exact refused (hkind error rfl)

theorem of_ofColumns (name : String) (columns : List Column) :
    SameOutcome (· = ·) (Table.ofColumns name columns) (Table.ofColumns name columns) := by
  rw [Table.ofColumns]
  split
  · exact refused (by simp [MigrationError.kind])
  · exact accepted rfl

end SameOutcome

/-! ## Tables apart from their copy parameters -/

/-- The action without the copy parameters that it brings. -/
def Action.forgetParams : Action → Action
  | addColumn column _ => addColumn column none
  | changeColumn name definition _ => changeColumn name definition none
  | action => action

namespace Table

theorem find?_forgetParams (table : Table) (name : String) :
    table.forgetParams.find? name =
      (table.find? name).map fun entry => { entry with params := none } := by
  simp only [find?, forgetParams, List.find?_map]
  rfl

theorem forgetParams_addColumn (table : Table) (column : Column) (params : Option CopyParams) :
    (table.addColumn column params).map forgetParams =
      table.forgetParams.addColumn column none := by
  rw [addColumn, addColumn, find?_forgetParams]
  cases table.find? column.name <;> simp [Except.map, forgetParams]

theorem forgetParams_modify (table : Table) (name : String)
    {change change' : TableColumn → TableColumn}
    (hchange : ∀ entry : TableColumn,
      { change entry with params := none } = change' { entry with params := none }) :
    (table.modify name change).forgetParams = table.forgetParams.modify name change' := by
  have hentries := Columns.map_modify
    (f := fun entry : TableColumn => { entry with params := none }) hchange table.entries
    (table.entries.findIdx (·.name = name))
  rw [modify, forgetParams, modify, forgetParams, List.findIdx_map]
  exact congrArg (Table.mk table.name) hentries.symm

theorem forgetParams_changeColumn (table : Table) (name : String) (definition : Option Column)
    (params : Option CopyParams) :
    (table.changeColumn name definition params).map forgetParams =
      table.forgetParams.changeColumn name definition none := by
  rw [changeColumn, changeColumn, find?_forgetParams]
  cases table.find? name with
  | none => rfl
  | some entry =>
      refine congrArg Except.ok (forgetParams_modify table name fun entry => ?_)
      rfl

theorem forgetParams_dropColumn (table : Table) (name : String) :
    (table.dropColumn name).map forgetParams = table.forgetParams.dropColumn name := by
  rw [dropColumn, dropColumn, find?_forgetParams]
  cases table.find? name with
  | none => rfl
  | some entry =>
      simp only [Except.map, forgetParams, Option.map_some, List.eraseP_map]
      rfl

theorem forgetParams_renameColumn (table : Table) (old new : String) :
    (table.renameColumn old new).map forgetParams = table.forgetParams.renameColumn old new := by
  rw [renameColumn, renameColumn, find?_forgetParams, find?_forgetParams]
  cases table.find? new with
  | some entry => rfl
  | none =>
      cases table.find? old with
      | none => rfl
      | some entry =>
          refine congrArg Except.ok (forgetParams_modify table old fun entry => ?_)
          rfl

theorem forgetParams_retarget (table : Table) (old new : String) :
    (table.retarget old new).forgetParams = table.forgetParams.retarget old new := by
  simp [retarget, forgetParams]

theorem forgetParams_settle (table : Table) :
    table.settle.forgetParams = table.forgetParams.settle := by
  simp [settle, forgetParams]

theorem forgetParams_forgetParams (table : Table) :
    table.forgetParams.forgetParams = table.forgetParams := by
  simp [forgetParams]

end Table

namespace Registry

/-- The registry without the copy parameters that wait for a rebuild. -/
def forgetParams (registry : Registry) : Registry := ⟨registry.tables.map Table.forgetParams⟩

theorem find?_forgetParams (registry : Registry) (name : String) :
    registry.forgetParams.find? name = (registry.find? name).map Table.forgetParams := by
  simp only [find?, forgetParams, List.find?_map]
  rfl

theorem contains_forgetParams (registry : Registry) (name : String) :
    registry.forgetParams.contains name = registry.contains name := by
  simp [contains, find?_forgetParams]

/-- Copy parameters have no part in what an action does otherwise. -/
theorem forgetParams_applyTo (registry : Registry) (table : Table) (action : Action) :
    (registry.applyTo table action).map Table.forgetParams =
      registry.forgetParams.applyTo table.forgetParams action.forgetParams := by
  cases action with
  | addColumn column params => exact table.forgetParams_addColumn column params
  | changeColumn name definition params =>
      exact table.forgetParams_changeColumn name definition params
  | dropColumn name => exact table.forgetParams_dropColumn name
  | renameColumn old new => exact table.forgetParams_renameColumn old new
  | renameTable new =>
      change (registry.applyTo table (.renameTable new)).map Table.forgetParams =
        registry.forgetParams.applyTo table.forgetParams (.renameTable new)
      rw [applyTo, applyTo, contains_forgetParams]
      split
      · rfl
      · exact congrArg Except.ok (Table.forgetParams_retarget _ _ _)
  | createTable columns => rfl
  | dropTable => rfl

theorem forgetParams_overwrite (registry : Registry) (name : String) (table : Table) :
    (registry.overwrite name table).forgetParams =
      registry.forgetParams.overwrite name table.forgetParams := by
  simp only [overwrite, forgetParams, List.map_map]
  congr 1
  apply List.map_congr_left
  intro stored _
  exact apply_ite Table.forgetParams _ _ _

theorem forgetParams_retarget (registry : Registry) (old new : String) :
    (registry.retarget old new).forgetParams = registry.forgetParams.retarget old new := by
  simp [retarget, forgetParams, Table.forgetParams_retarget]

theorem forgetParams_insert (registry : Registry) (table : Table) :
    (registry.insert table).map forgetParams =
      registry.forgetParams.insert table.forgetParams := by
  rw [insert, insert]
  change _ = if registry.forgetParams.contains table.name then _ else _
  rw [contains_forgetParams]
  split
  · rfl
  · simp [Except.map, forgetParams]

theorem forgetParams_remove (registry : Registry) (name : String) :
    (registry.remove name).map forgetParams = registry.forgetParams.remove name := by
  rw [remove, remove, contains_forgetParams]
  split
  · simp [Except.map, forgetParams, List.filter_map, Function.comp_def]
    rfl
  · rfl

theorem forgetParams_replace (registry : Registry) (name : String) (table : Table) :
    (registry.replace name table).map forgetParams =
      registry.forgetParams.replace name table.forgetParams := by
  have hname : table.forgetParams.name = table.name := rfl
  rw [replace, replace, contains_forgetParams, contains_forgetParams, hname]
  split
  · rfl
  · split
    · exact congrArg Except.ok (forgetParams_overwrite registry name table)
    · split
      · rfl
      · refine congrArg Except.ok ?_
        rw [forgetParams_overwrite, forgetParams_retarget]

/-- Registries that track the same columns of the same tables. -/
def Resembles (first second : Registry) : Prop := first.forgetParams = second.forgetParams

variable {first second : Registry}

theorem Resembles.contains_eq (hsame : first.Resembles second) (name : String) :
    first.contains name = second.contains name := by
  rw [← contains_forgetParams, hsame, contains_forgetParams]

theorem Resembles.applyAll (hsame : first.Resembles second) {table table' : Table}
    (htable : table.forgetParams = table'.forgetParams) (actions : List Action) :
    SameOutcome (fun a b => a.forgetParams = b.forgetParams) (first.applyAll table actions)
      (second.applyAll table' actions) := by
  refine SameOutcome.foldlM (fun action _ a b hab => ?_) htable
  refine SameOutcome.of_map_eq ?_ fun error herror => ?_
  · rw [forgetParams_applyTo, forgetParams_applyTo, hsame, hab]
  · rw [kind_of_applyTo herror]
    decide

theorem Resembles.insert (hsame : first.Resembles second) (table : Table) :
    SameOutcome Resembles (first.insert table) (second.insert table) := by
  refine SameOutcome.of_map_eq ?_ fun error herror => ?_
  · rw [forgetParams_insert, forgetParams_insert, hsame]
  · rw [kind_of_insert herror]
    decide

theorem Resembles.remove (hsame : first.Resembles second) (name : String) :
    SameOutcome Resembles (first.remove name) (second.remove name) := by
  refine SameOutcome.of_map_eq ?_ fun error herror => ?_
  · rw [forgetParams_remove, forgetParams_remove, hsame]
  · rw [kind_of_remove herror]
    decide

theorem Resembles.replace (hsame : first.Resembles second) (name : String)
    {table table' : Table} (htable : table.forgetParams = table'.forgetParams) :
    SameOutcome Resembles (first.replace name table) (second.replace name table') := by
  refine SameOutcome.of_map_eq ?_ fun error herror => ?_
  · rw [forgetParams_replace, forgetParams_replace, hsame, htable]
  · rw [kind_of_replace herror]
    decide

end Registry

/-! ## Planning under different capabilities -/

namespace Planner

variable {planner planner' : Planner} {first second : Registry}

/-- An alteration ends with the altered table in the place of the stored one,
whether it is written in place or as a rebuild. -/
theorem planAlteration_eq (planner : Planner) {registry : Registry} {source : String}
    {stored target : Table} {actions : List Action} (halters : Segment.Alters actions)
    (hfind : registry.find? source = some stored)
    (happly : registry.applyAll stored actions = .ok target) :
    ∃ placed batch, placed.forgetParams = target.settle.forgetParams ∧
      planner.planAlteration registry source actions =
        (registry.replace source placed).map fun next => (next, batch) := by
  rw [planAlteration]
  by_cases hrebuild : planner.needsRebuild registry stored actions = true
  · refine ⟨target.forgetParams.settle, ⟨target.name, target.rebuild source, 1⟩, ?_, ?_⟩
    · rw [Table.forgetParams_settle, Table.forgetParams_settle, Table.forgetParams_forgetParams]
    · simp only [hfind, happly, hrebuild, if_true, bind, Except.bind]
      cases registry.replace source target.forgetParams.settle <;> rfl
  · obtain ⟨statements, hdirect⟩ := exists_mapM_direct (Segment.not_terminal_of_alters halters)
      happly (by simpa using hrebuild) source
    refine ⟨target.settle, ⟨target.name, statements, 0⟩, rfl, ?_⟩
    simp only [hfind, happly, hrebuild, hdirect, bind, Except.bind]
    cases registry.replace source target.settle <;> rfl

theorem sameOutcome_planAlteration (hsame : first.Resembles second) {actions : List Action}
    (halters : Segment.Alters actions) (source : String) :
    SameOutcome (fun a b => a.1.Resembles b.1) (planner.planAlteration first source actions)
      (planner'.planAlteration second source actions) := by
  have hfind : (first.find? source).map Table.forgetParams =
      (second.find? source).map Table.forgetParams := by
    rw [← Registry.find?_forgetParams, hsame, Registry.find?_forgetParams]
  cases hstored : first.find? source with
  | none =>
      rw [hstored, Option.map_none, eq_comm, Option.map_eq_none_iff] at hfind
      rw [planAlteration, planAlteration, hstored, hfind]
      exact .refused (by simp [MigrationError.kind])
  | some stored =>
      rw [hstored, Option.map_some, eq_comm] at hfind
      obtain ⟨stored', hstored', htable⟩ := Option.map_eq_some_iff.mp hfind
      have happly := hsame.applyAll htable.symm actions
      generalize htarget : first.applyAll stored actions = applied at happly
      generalize htarget' : second.applyAll stored' actions = applied' at happly
      cases happly with
      | refused hkind =>
          rw [planAlteration_eq_error hstored htarget, planAlteration_eq_error hstored' htarget']
          exact .refused hkind
      | accepted hresembles =>
          obtain ⟨placed, batch, hplaced, hplan⟩ :=
            planAlteration_eq planner halters hstored htarget
          obtain ⟨placed', batch', hplaced', hplan'⟩ :=
            planAlteration_eq planner' halters hstored' htarget'
          have hsettled : placed.forgetParams = placed'.forgetParams := by
            rw [hplaced, hplaced', Table.forgetParams_settle, Table.forgetParams_settle,
              hresembles]
          rw [hplan, hplan']
          exact (hsame.replace source hsettled).map fun a b hab => hab

theorem sameOutcome_planCreation (hreplace : planner.replaceExisting = planner'.replaceExisting)
    (hsame : first.Resembles second) (name : String) (columns : List Column) :
    SameOutcome (fun a b => a.1.Resembles b.1) (planner.planCreation first name columns)
      (planner'.planCreation second name columns) := by
  rw [planCreation, planCreation, ← hsame.contains_eq, ← hreplace]
  refine (SameOutcome.of_ofColumns name columns).bind fun table table' htable => ?_
  subst htable
  split
  · split
    · refine (hsame.remove name).bind fun freed freed' hfreed => ?_
      refine (hfreed.insert table).bind fun next next' hnext => ?_
      exact .accepted hnext
    · exact .refused (by simp [MigrationError.kind])
  · refine (hsame.insert table).bind fun next next' hnext => ?_
    exact .accepted hnext

theorem sameOutcome_planSegment (hreplace : planner.replaceExisting = planner'.replaceExisting)
    (hsame : first.Resembles second) {segment : Segment} (hwell : segment.WellFormed)
    (table : String) :
    SameOutcome (fun a b => a.1.Resembles b.1) (planner.planSegment first table segment)
      (planner'.planSegment second table segment) := by
  cases segment with
  | alter actions => exact sameOutcome_planAlteration hsame hwell table
  | create columns => exact sameOutcome_planCreation hreplace hsame table columns
  | drop =>
      refine (hsame.remove table).bind fun next next' hnext => ?_
      exact .accepted hnext

theorem sameOutcome_plan (hreplace : planner.replaceExisting = planner'.replaceExisting)
    (hsame : first.Resembles second) (table : String) (actions : List Action) :
    SameOutcome (fun a b => a.1.Resembles b.1) (planner.plan first table actions)
      (planner'.plan second table actions) := by
  refine SameOutcome.foldlM (fun segment hmem a b hab => ?_) hsame
  have hwell := Segment.wellFormed_cut actions segment hmem
  refine (sameOutcome_planSegment hreplace hab hwell table).bind fun next next' hnext => ?_
  exact .accepted hnext

end Planner

/-! ## Runs under different dialects -/

namespace Compilation

/-- Compilations that differ in the dialect, in the statements compiled so far and
in the copy parameters that wait for a rebuild. -/
structure Resembles (first second : Compilation) : Prop where
  settings_eq : second.settings =
    { first.settings with
      dialect := second.settings.dialect
      dialectVersion := second.settings.dialectVersion }
  registry : first.registry.Resembles second.registry
  queue_eq : first.queue = second.queue
  ids_eq : first.migrations.map Migration.id = second.migrations.map Migration.id

variable {first second : Compilation}

theorem Resembles.length_eq (hsame : first.Resembles second) :
    first.migrations.length = second.migrations.length := by
  simpa using congrArg List.length hsame.ids_eq

theorem Resembles.isEmpty_eq (hsame : first.Resembles second) :
    first.migrations.isEmpty = second.migrations.isEmpty := by
  simpa using congrArg List.isEmpty hsame.ids_eq

theorem Resembles.nextId_eq (hsame : first.Resembles second) : first.nextId = second.nextId := by
  rw [nextId, nextId, hsame.length_eq, hsame.settings_eq]

/-- The planners of two such compilations differ in what the engine can do. -/
theorem Resembles.replaceExisting_eq (hsame : first.Resembles second) :
    first.planner.replaceExisting = second.planner.replaceExisting := by
  rw [planner, planner, hsame.settings_eq]

theorem Resembles.appendSteps (hsame : first.Resembles second) (steps steps' : List Step) :
    SameOutcome Resembles (first.appendSteps steps) (second.appendSteps steps') := by
  by_cases hopen : first.migrations = []
  · have hopen' : second.migrations = [] := by
      simpa [hopen] using hsame.isEmpty_eq
    rw [appendSteps_eq, appendSteps_eq, hopen, hopen']
    exact .refused (by simp [MigrationError.kind])
  · have hopen' : second.migrations ≠ [] := fun hclosed =>
      hopen (by simpa [hclosed] using hsame.isEmpty_eq)
    obtain ⟨next, hnext⟩ := exists_appendSteps hopen steps
    obtain ⟨next', hnext'⟩ := exists_appendSteps hopen' steps'
    rw [hnext, hnext']
    obtain ⟨earlier, current, hmigrations, rfl⟩ := appendSteps_cases hnext
    obtain ⟨earlier', current', hmigrations', rfl⟩ := appendSteps_cases hnext'
    refine .accepted ⟨hsame.settings_eq, hsame.registry, hsame.queue_eq, ?_⟩
    simpa [hmigrations, hmigrations'] using hsame.ids_eq

theorem Resembles.flush (hsame : first.Resembles second) :
    SameOutcome Resembles first.flush second.flush := by
  rw [flush_eq, flush_eq, ← hsame.queue_eq]
  split
  · exact .accepted hsame
  · have hplanned : SameOutcome (fun a b => a.1.Resembles b.1)
        (planBatches first.planner (first.registry, []) first.queue.batches)
        (planBatches second.planner (second.registry, []) first.queue.batches) := by
      refine SameOutcome.foldlM (fun batch _ a b hab => ?_) hsame.registry
      refine (Planner.sameOutcome_plan hsame.replaceExisting_eq hab batch.table
        batch.actions).bind fun next next' hnext => ?_
      exact .accepted hnext
    refine hplanned.bind fun planned planned' hregistry => ?_
    refine (hsame.appendSteps _ _).bind fun next next' hnext => ?_
    exact .accepted ⟨hnext.settings_eq, hregistry, rfl, hnext.ids_eq⟩

theorem Resembles.openMigration (hsame : first.Resembles second) :
    SameOutcome (fun a b => a.1 = b.1 ∧ a.2.Resembles b.2) first.openMigration
      second.openMigration := by
  rw [openMigration_eq, openMigration_eq]
  refine hsame.flush.bind fun next next' hnext => ?_
  refine .accepted ⟨hnext.nextId_eq, hnext.settings_eq, hnext.registry, hnext.queue_eq, ?_⟩
  simp [hnext.ids_eq, hnext.nextId_eq]

theorem Resembles.enqueue (hsame : first.Resembles second) (table : String) (action : Action) :
    SameOutcome Resembles (first.enqueue table action) (second.enqueue table action) := by
  rw [enqueue_eq, enqueue_eq, hsame.isEmpty_eq]
  split
  · exact .refused (by simp [MigrationError.kind])
  · exact .accepted ⟨hsame.settings_eq, hsame.registry, by rw [hsame.queue_eq], hsame.ids_eq⟩

theorem Resembles.addStep (hsame : first.Resembles second) (step : Step) :
    SameOutcome Resembles (first.addStep step) (second.addStep step) := by
  rw [addStep_eq, addStep_eq, hsame.isEmpty_eq]
  split
  · exact .refused (by simp [MigrationError.kind])
  · exact hsame.flush.bind fun next next' hnext => hnext.appendSteps [step] [step]

end Compilation

namespace RowTypes

theorem declaration_forgetParams (table : Table) :
    declaration table.forgetParams = declaration table := by
  have hname : table.forgetParams.name = table.name := rfl
  unfold declaration
  rw [hname, Table.columns_forgetParams]

/-- Row types are made from columns alone. -/
theorem document_forgetParams (registry : Registry) :
    document registry.forgetParams = document registry := by
  unfold document
  simp only [Registry.forgetParams, List.map_map, Function.comp_def, declaration_forgetParams]

theorem document_eq {first second : Registry} (hsame : first.Resembles second) :
    document first = document second := by
  rw [← document_forgetParams, hsame, document_forgetParams]

end RowTypes

/-- Answers that differ at most in the steps of a delta.  An error is the same, and
never that an engine lacks a form. -/
inductive Reply.Matches : Reply → Reply → Prop
  | done : Matches .done .done
  | opened (id : Int) : Matches (.opened id) (.opened id)
  | steps (first second : List Step) : Matches (.steps first) (.steps second)
  | document (text : String) : Matches (.document text) (.document text)
  | refused {error : MigrationError} (hkind : error.kind ≠ .unsupportedOperation) :
      Matches (.refused error) (.refused error)

namespace Command

variable {first second : Compilation}

theorem sameOutcome_attempt (hsame : first.Resembles second) (command : Command) :
    SameOutcome (fun a b => a.1.Matches b.1 ∧ a.2.Resembles b.2) (command.attempt first)
      (command.attempt second) := by
  rw [attempt_eq, attempt_eq]
  cases command with
  | start =>
      refine hsame.openMigration.bind ?_
      rintro ⟨id, next⟩ ⟨id', next'⟩ ⟨rfl, hnext⟩
      exact .accepted ⟨.opened id, hnext⟩
  | enqueue table action =>
      exact (hsame.enqueue table action).bind fun next next' hnext => .accepted ⟨.done, hnext⟩
  | sql query values =>
      exact (hsame.addStep _).bind fun next next' hnext => .accepted ⟨.done, hnext⟩
  | script label =>
      exact (hsame.addStep _).bind fun next next' hnext => .accepted ⟨.done, hnext⟩
  | asyncScript label =>
      exact (hsame.addStep _).bind fun next next' hnext => .accepted ⟨.done, hnext⟩
  | flush => exact hsame.flush.bind fun next next' hnext => .accepted ⟨.done, hnext⟩
  | steps applied =>
      simp only [Compilation.steps_eq, bind_assoc]
      exact hsame.flush.bind fun next next' hnext => .accepted ⟨.steps _ _, hnext⟩
  | rowTypes =>
      simp only [Compilation.rowTypes_eq, bind_assoc]
      refine hsame.flush.bind fun next next' hnext => ?_
      simp only [pure_bind, RowTypes.document_eq hnext.registry]
      exact .accepted ⟨.document _, hnext⟩

theorem perform_matches (command : Command) (hsame : first.Resembles second) :
    (command.perform first).1.Matches (command.perform second).1 ∧
      (command.perform first).2.Resembles (command.perform second).2 := by
  have hattempt := sameOutcome_attempt hsame command
  rw [perform_eq, perform_eq]
  generalize command.attempt first = attempted at hattempt ⊢
  generalize command.attempt second = attempted' at hattempt ⊢
  cases hattempt with
  | accepted hmatches => exact hmatches
  | refused hkind => exact ⟨.refused hkind, hsame⟩

end Command

namespace Compilation

theorem Resembles.run {first second : Compilation} (hsame : first.Resembles second)
    (commands : List Command) : (first.run commands).Resembles (second.run commands) := by
  induction commands generalizing first second with
  | nil => exact hsame
  | cons command rest ih => exact ih (command.perform_matches hsame).2

end Compilation

/-- Answers of two migrators that match in the same way. -/
inductive MigratorReply.Matches : MigratorReply → MigratorReply → Prop
  | notOpen : Matches .notOpen .notOpen
  | answered {first second : Reply} (hmatches : first.Matches second) :
      Matches (.answered first) (.answered second)
  | declared {first second : List (Reply × String)}
      (hmatches : List.Forall₂ (fun a b => a.1.Matches b.1 ∧ a.2 = b.2) first second) :
      Matches (.declared first) (.declared second)
  | history (create select : String) : Matches (.history create select) (.history create select)

namespace Migrator

/-- Migrators that differ as their compilations do. -/
structure Resembles (first second : Migrator) : Prop where
  compilation : first.compilation.Resembles second.compilation
  isOpen_eq : first.isOpen = second.isOpen

theorem declareAll_matches {first second : Compilation} (hsame : first.Resembles second)
    (table : String) (calls : List TableCall) :
    List.Forall₂ (fun a b => a.1.Matches b.1 ∧ a.2 = b.2) (declareAll first table calls).1
        (declareAll second table calls).1 ∧
      (declareAll first table calls).2.Resembles (declareAll second table calls).2 := by
  induction calls generalizing first second table with
  | nil => exact ⟨.nil, hsame⟩
  | cons call rest ih =>
      have hdeclare : SameOutcome (fun a b => a.1.Resembles b.1 ∧ a.2 = b.2)
          (first.declare table call) (second.declare table call) :=
        (hsame.enqueue table call.action).bind fun next next' hnext => .accepted ⟨hnext, rfl⟩
      rw [declareAll, declareAll]
      generalize first.declare table call = declared at hdeclare ⊢
      generalize second.declare table call = declared' at hdeclare ⊢
      cases hdeclare with
      | accepted hnext =>
          rename_i next next'
          obtain ⟨next, name⟩ := next
          obtain ⟨next', name'⟩ := next'
          obtain ⟨hnext, rfl⟩ := hnext
          exact ⟨.cons ⟨.done, rfl⟩ (ih hnext name).1, (ih hnext name).2⟩
      | refused hkind =>
          exact ⟨.cons ⟨.refused hkind, rfl⟩ (ih hsame table).1, (ih hsame table).2⟩

variable {first second : Migrator}

theorem pass_matches (hsame : first.Resembles second) (command : Command)
    {isOpen : Reply → Bool} (hopen : ∀ a b : Reply, a.Matches b → isOpen a = isOpen b) :
    (first.pass command isOpen).1.Matches (second.pass command isOpen).1 ∧
      (first.pass command isOpen).2.Resembles (second.pass command isOpen).2 := by
  have hperform := command.perform_matches hsame.compilation
  exact ⟨.answered hperform.1, hperform.2, hopen _ _ hperform.1⟩

theorem whenOpen_matches (hsame : first.Resembles second)
    {result result' : MigratorReply × Migrator}
    (hresult : result.1.Matches result'.1 ∧ result.2.Resembles result'.2) :
    (first.whenOpen result).1.Matches (second.whenOpen result').1 ∧
      (first.whenOpen result).2.Resembles (second.whenOpen result').2 := by
  rw [whenOpen, whenOpen, ← hsame.isOpen_eq]
  split
  · exact hresult
  · exact ⟨.notOpen, hsame⟩

theorem perform_matches (hsame : first.Resembles second) (call : MigratorCall) :
    (first.perform call).1.Matches (second.perform call).1 ∧
      (first.perform call).2.Resembles (second.perform call).2 := by
  cases call with
  | migrate =>
      refine pass_matches hsame .start fun a b hmatches => ?_
      cases hmatches <;> rfl
  | table name calls =>
      have hdeclared := declareAll_matches hsame.compilation name calls
      exact whenOpen_matches hsame ⟨.declared hdeclared.1, hdeclared.2, rfl⟩
  | sql query values =>
      exact whenOpen_matches hsame (pass_matches hsame _ fun _ _ _ => rfl)
  | script label => exact whenOpen_matches hsame (pass_matches hsame _ fun _ _ _ => rfl)
  | asyncScript label => exact whenOpen_matches hsame (pass_matches hsame _ fun _ _ _ => rfl)
  | steps applied => exact pass_matches hsame _ fun _ _ _ => rfl
  | rowTypes => exact pass_matches hsame _ fun _ _ _ => rfl
  | history =>
      have hlayout : second.compilation.settings.migrationTable =
          first.compilation.settings.migrationTable := by
        rw [hsame.compilation.settings_eq]
      rw [perform, perform, hlayout]
      exact ⟨.history _ _, hsame.compilation, rfl⟩

theorem Resembles.run (hsame : first.Resembles second) (calls : List MigratorCall) :
    (first.run calls).Resembles (second.run calls) := by
  induction calls generalizing first second with
  | nil => exact hsame
  | cons call rest ih => exact ih (perform_matches hsame call).2

end Migrator

/-- The settings for another engine. -/
def Settings.onEngine (settings : Settings) (dialect version : String) : Settings :=
  { settings with dialect, dialectVersion := version }

theorem Compilation.resembles_new (settings : Settings) (dialect version : String) :
    (new settings).Resembles (new (settings.onEngine dialect version)) :=
  ⟨rfl, rfl, rfl, rfl⟩

/-- Whatever was done before, the next operation answers alike on every engine and
leaves the same tables, and so the same row types, behind.  This holds of a
compilation and of a migrator. -/
theorem operation_matches_onEngine (settings : Settings) (dialect version : String) :
    (∀ (commands : List Command) (command : Command),
        ∃ reply next reply' next',
          command.perform ((Compilation.new settings).run commands) = (reply, next) ∧
            command.perform ((Compilation.new (settings.onEngine dialect version)).run commands) =
              (reply', next') ∧
            reply.Matches reply' ∧ next.registry.Resembles next'.registry ∧
            RowTypes.document next.registry = RowTypes.document next'.registry) ∧
      ∀ (calls : List MigratorCall) (call : MigratorCall),
        ∃ reply next reply' next',
          ((Migrator.new settings).run calls).perform call = (reply, next) ∧
            ((Migrator.new (settings.onEngine dialect version)).run calls).perform call =
              (reply', next') ∧
            reply.Matches reply' ∧
            next.compilation.registry.Resembles next'.compilation.registry ∧
            RowTypes.document next.compilation.registry =
              RowTypes.document next'.compilation.registry := by
  have hnew := Compilation.resembles_new settings dialect version
  constructor
  · intro commands command
    have hperform := command.perform_matches (hnew.run commands)
    exact ⟨_, _, _, _, rfl, rfl, hperform.1, hperform.2.registry,
      RowTypes.document_eq hperform.2.registry⟩
  · intro calls call
    have hmigrator : (Migrator.new settings).Resembles
        (Migrator.new (settings.onEngine dialect version)) := ⟨hnew, rfl⟩
    have hperform := Migrator.perform_matches (hmigrator.run calls) call
    exact ⟨_, _, _, _, rfl, rfl, hperform.1, hperform.2.compilation.registry,
      RowTypes.document_eq hperform.2.compilation.registry⟩

end SchemaMigration
