import SchemaMigration.Proofs.DeclarationOrder
import SchemaMigration.Proofs.Exchange

/-!
# References after a flush

An action that overtakes others is carried out before them.  This can be seen in
the references of foreign columns.  A renaming that overtakes a column which
references the old name leaves that column behind; a column that overtakes a
renaming of the table it references is redirected although it was declared
later.  These are the only two ways in which references differ from the order of
declaration.
-/

namespace SchemaMigration

namespace Action

/-- The columns that an action brings into its table. -/
def columns : Action → List Column
  | createTable columns => columns
  | addColumn column _ => [column]
  | changeColumn _ definition _ => definition.toList
  | dropTable | renameTable _ | dropColumn _ | renameColumn _ _ => []

theorem mapColumns_eq_self {f : Column → Column} {action : Action}
    (hkept : ∀ column ∈ action.columns, f column = column) : action.mapColumns f = action := by
  cases action with
  | createTable columns =>
      exact congrArg createTable ((List.map_congr_left hkept).trans (List.map_id' columns))
  | addColumn column params =>
      rw [mapColumns, hkept column (List.mem_singleton.mpr rfl)]
  | changeColumn name definition params =>
      cases definition with
      | none => rfl
      | some new => rw [mapColumns, Option.map_some, hkept new (List.mem_singleton.mpr rfl)]
  | dropTable | renameTable _ | dropColumn _ | renameColumn _ _ => rfl

theorem isRenameTable_iff {action : Action} :
    action.isRenameTable = true ↔ ∃ new, action = .renameTable new := by
  cases action <;> simp [isRenameTable]

end Action

namespace Declaration

theorem follow_of_renameTable {declaration : Declaration} {new : String}
    (hnew : declaration.action = .renameTable new) :
    declaration.follow = Column.retarget declaration.table new := by
  rw [follow, hnew]

theorem follow_of_not_renameTable {declaration : Declaration}
    (hrename : declaration.action.isRenameTable = false) : declaration.follow = id := by
  rw [follow]
  split
  next hnew => simp [hnew, Action.isRenameTable] at hrename
  · rfl

theorem bare_followAll (declarations : List Declaration) (column : Column) :
    (followAll declarations column).bare = column.bare := by
  induction declarations generalizing column with
  | nil => rfl
  | cons first rest ih =>
      exact (ih (first.follow column)).trans (congrFun first.bare_follow column)

theorem followAll_of_not_foreign (declarations : List Declaration) {column : Column}
    (hforeign : column.isForeign = false) : followAll declarations column = column := by
  have hfollow : ∀ declaration : Declaration, declaration.follow column = column := by
    rintro ⟨table, action⟩
    cases action with
    | renameTable new => simp [follow, Column.retarget, hforeign]
    | _ => rfl
  induction declarations with
  | nil => rfl
  | cons first rest ih =>
      have hfirst : followAll (first :: rest) column = followAll rest (first.follow column) := rfl
      rw [hfirst, hfollow, ih]

/-- Declarations change nothing about a column but the table it points to. -/
theorem followAll_eq_self {declarations : List Declaration} {column : Column}
    (htarget : (followAll declarations column).target? = column.target?) :
    followAll declarations column = column := by
  cases hforeign : column.isForeign with
  | false => exact followAll_of_not_foreign declarations hforeign
  | true =>
      have hbare := bare_followAll declarations column
      generalize followAll declarations column = followed at htarget hbare
      obtain ⟨name, type, primaryKey, autoIncrement, notNull, unique, default, references⟩ := column
      obtain ⟨name', type', primaryKey', autoIncrement', notNull', unique', default',
        references'⟩ := followed
      simp only [Column.bare, Column.mk.injEq] at hbare
      obtain ⟨rfl, rfl, rfl, rfl, rfl, rfl, rfl, -⟩ := hbare
      simp only [Column.isForeign] at hforeign
      simpa [Column.target?, Column.isForeign, hforeign] using htarget

end Declaration

namespace Schema

variable {replace : Bool}

/-- A renaming that is drained ahead of its turn leaves behind the references
that it would have redirected in its turn. -/
theorem applyAll_declare_renameTable {queue : Queue} (hcovers : queue.Covers)
    {declaration : Declaration} (hrename : declaration.action.isRenameTable = true)
    (schema : Schema) :
    (applyAll replace queue.declarations schema).bind (apply replace declaration) =
      (applyAll replace (queue.declare declaration).declarations schema).map
        (Catalog.mapColumns declaration.follow) := by
  obtain ⟨before, hbefore, hdeclared⟩ := queue.declarations_declare declaration
  have hdisjoint := Queue.disjoint_overtaken hcovers declaration
  calc (applyAll replace queue.declarations schema).bind (apply replace declaration)
      = (applyAll replace before schema).bind
          (applyAll replace (queue.overtaken declaration ++ [declaration])) := by
        rw [← applyAll_append, ← List.append_assoc, ← hbefore, applyAll_append, applyAll_single]
    _ = (applyAll replace before schema).bind fun middle =>
          (applyAll replace (declaration :: queue.overtaken declaration) middle).map
            (Catalog.mapColumns declaration.follow) := by
        congr 1
        funext middle
        exact applyAll_concat_renameTable hrename hdisjoint middle
    _ = (applyAll replace (queue.declare declaration).declarations schema).map
          (Catalog.mapColumns declaration.follow) := by
        rw [hdeclared, applyAll_append, Option.map_bind]
        rfl

/-- Any other action that is drained ahead of its turn has its columns redirected
by the renamings that it overtakes. -/
theorem applyAll_declare {queue : Queue} (hcovers : queue.Covers) {declaration : Declaration}
    (hrename : declaration.action.isRenameTable = false) (schema : Schema) :
    applyAll replace (queue.declare declaration).declarations schema =
      (applyAll replace queue.declarations schema).bind
        (apply replace (declaration.mapColumns
          (Declaration.followAll (queue.overtaken declaration)))) := by
  obtain ⟨before, hbefore, hdeclared⟩ := queue.declarations_declare declaration
  have hdisjoint := Queue.disjoint_overtaken hcovers declaration
  have hkept : ∀ other ∈ queue.overtaken declaration,
      other.mapColumns declaration.follow = other := by
    intro other _
    rw [Declaration.follow_of_not_renameTable hrename, Declaration.mapColumns_id]
  rw [hdeclared, applyAll_append, funext (applyAll_exchange hdisjoint hkept), ← applyAll_append,
    ← List.append_assoc, ← hbefore, applyAll_append, applyAll_single]

/-- The tables that the columns point to. -/
def targets (schema : Schema) : String → Option (List (Option String)) :=
  fun table => (schema table).map (List.map Column.target?)

/-- No foreign column references the name. -/
def Unreferenced (name : String) (schema : Schema) : Prop :=
  ∀ table columns, schema table = some columns →
    ∀ column ∈ columns, column.target? ≠ some name

theorem mapColumns_retarget_of_unreferenced {old : String} (new : String) {schema : Schema}
    (hunreferenced : schema.Unreferenced old) :
    schema.mapColumns (Column.retarget old new) = schema := by
  funext table
  cases htable : schema table with
  | none => simp [Catalog.mapColumns, htable]
  | some columns =>
      simp only [Catalog.mapColumns, htable, Option.map_some, Option.some.injEq]
      refine (List.map_congr_left fun column hmem => ?_).trans (List.map_id' columns)
      exact Column.retarget_of_ne new (hunreferenced table columns htable column hmem)

/-- A redirection changes no target only when there is nothing to redirect. -/
theorem unreferenced_of_targets_eq {old new : String} (hmoved : new ≠ old) {schema : Schema}
    (htargets : Schema.targets (schema.mapColumns (Column.retarget old new)) = schema.targets) :
    schema.Unreferenced old := by
  intro table columns htable column hmem htarget
  have hcolumns := congrFun htargets table
  simp only [targets, Catalog.mapColumns, htable, Option.map_some, List.map_map,
    Option.some.injEq] at hcolumns
  have hcolumn := List.map_inj_left.mp hcolumns column hmem
  rw [Function.comp_apply, Column.target?_retarget, if_pos htarget, htarget] at hcolumn
  exact hmoved (Option.some.inj hcolumn)

theorem targets_set (schema : Schema) (table : String) (columns : List Column) :
    targets (schema.set table (some columns)) table = some (columns.map Column.target?) := by
  simp [targets]

/-- A change of columns leaves the same targets with other columns only if what
it brings has the same targets. -/
theorem target?_of_onColumns {f : Column → Column} {action : Action}
    {columns first second : List Column}
    (hfirst : (action.mapColumns f).onColumns columns = some first)
    (hsecond : action.onColumns columns = some second)
    (hcolumn : action.isColumnChange = true)
    (htargets : first.map Column.target? = second.map Column.target?) :
    ∀ column ∈ action.columns, (f column).target? = column.target? := by
  cases action with
  | addColumn column params =>
      rw [(Columns.add_cases hfirst).2, (Columns.add_cases hsecond).2] at htargets
      simpa [Action.columns] using htargets
  | changeColumn name definition params =>
      cases definition with
      | none => simp [Action.columns]
      | some new =>
          obtain ⟨hmem, rfl⟩ := Columns.modify_cases hfirst
          obtain ⟨-, rfl⟩ := Columns.modify_cases hsecond
          have hplace := List.getElem?_eq_getElem (Columns.place_lt_length hmem)
          have hchanged := congrArg (·[Columns.place name columns]?) htargets
          simp only [List.getElem?_map, List.getElem?_modify_eq, hplace, Option.map_some,
            Option.map_eq_map, Option.some.injEq] at hchanged
          simp only [Action.columns, Option.toList_some, List.mem_singleton, forall_eq]
          exact hchanged
  | dropColumn name => simp [Action.columns]
  | renameColumn old new => simp [Action.columns]
  | createTable columns => cases hcolumn
  | dropTable => cases hcolumn
  | renameTable new => cases hcolumn

/-- A declaration leaves the same targets with other columns only if what it
brings has the same targets. -/
theorem target?_of_targets_eq {table : String} {action : Action} {f : Column → Column}
    {schema first second : Schema}
    (hfirst : apply replace ⟨table, action.mapColumns f⟩ schema = some first)
    (hsecond : apply replace ⟨table, action⟩ schema = some second)
    (htargets : first.targets = second.targets) :
    ∀ column ∈ action.columns, (f column).target? = column.target? := by
  by_cases hcolumn : action.isColumnChange = true
  · have hmapped : (action.mapColumns f).isColumnChange = true := by
      cases action <;> exact hcolumn
    rw [apply_columnChange hmapped] at hfirst
    rw [apply_columnChange hcolumn] at hsecond
    obtain ⟨columns, firstColumns, htable, hfirstColumns, rfl⟩ := Catalog.alter_cases hfirst
    obtain ⟨columns', secondColumns, htable', hsecondColumns, rfl⟩ :=
      Catalog.alter_cases hsecond
    obtain rfl : columns = columns' := Option.some.inj (htable.symm.trans htable')
    have hcolumns := congrFun htargets table
    rw [targets_set, targets_set, Option.some.injEq] at hcolumns
    exact target?_of_onColumns hfirstColumns hsecondColumns hcolumn hcolumns
  · cases action with
    | createTable columns =>
        rw [Action.mapColumns, apply_createTable] at hfirst
        rw [apply_createTable] at hsecond
        split at hfirst
        · split at hsecond
          · cases hfirst
            cases hsecond
            have hcolumns := congrFun htargets table
            rw [targets_set, targets_set, Option.some.injEq, List.map_map] at hcolumns
            exact List.map_inj_left.mp hcolumns
          · cases hsecond
        · cases hfirst
    | dropTable => simp [Action.columns]
    | renameTable new => simp [Action.columns]
    | _ => exact absurd rfl hcolumn

theorem exists_of_apply_renameTable {schema next : Schema} {table new : String}
    (happly : apply replace ⟨table, .renameTable new⟩ schema = some next) :
    ∃ columns, schema table = some columns ∧
      next = ((schema.set table none).set new (some columns)).mapColumns
        (Column.retarget table new) := by
  cases htable : schema table with
  | none =>
      have hterminal : (Action.renameTable new).isTerminal = false := rfl
      rw [apply_missing hterminal htable] at happly
      cases happly
  | some columns =>
      rw [apply_renameTable htable] at happly
      split at happly
      · cases happly
      · exact ⟨columns, rfl, (Option.some.inj happly).symm⟩

theorem ne_of_apply_renameTable {schema next : Schema} {table new : String}
    (happly : apply replace ⟨table, .renameTable new⟩ schema = some next) : new ≠ table := by
  obtain ⟨columns, htable, -⟩ := exists_of_apply_renameTable happly
  rw [apply_renameTable htable] at happly
  rintro rfl
  simp [htable] at happly

end Schema

namespace Compilation

/-- After the declarations a flush succeeds, and the foreign columns point where
they point when the declarations are applied one at a time. -/
def ReferencesAsDeclared (compilation : Compilation) (declarations : List Declaration) : Prop :=
  ∃ flushed schema, (compilation.declareAll declarations).flush = .ok flushed ∧
    Schema.applyAll compilation.settings.replaceExistingTables declarations
      compilation.registry.schema = some schema ∧
    flushed.registry.schema.targets = schema.targets

/-- A declaration that disturbs no reference when it overtakes others.  A flush
that follows a renaming finds no foreign column at the old name; a column that is
declared is not redirected by the renamings it overtakes. -/
def Harmless (compilation : Compilation) (earlier : List Declaration)
    (declaration : Declaration) : Prop :=
  match declaration.action with
  | .renameTable _ =>
      ∀ flushed, (compilation.declareAll (earlier ++ [declaration])).flush = .ok flushed →
        flushed.registry.schema.Unreferenced declaration.table
  | action =>
      ∀ column ∈ action.columns,
        (Declaration.followAll
          ((compilation.declareAll earlier).queue.overtaken declaration) column).target? =
            column.target?

/-- A flush gives the schema of the declarations applied one at a time. -/
def FlushesAsDeclared (compilation : Compilation) (declarations : List Declaration) : Prop :=
  (compilation.declareAll declarations).flush.toOption.map (·.registry.schema) =
    Schema.applyAll compilation.settings.replaceExistingTables declarations
      compilation.registry.schema

variable {compilation : Compilation} {earlier declarations : List Declaration}
  {last : Declaration}

theorem harmless_iff_of_renameTable (hrename : last.action.isRenameTable = true) :
    compilation.Harmless earlier last ↔
      ∀ flushed, (compilation.declareAll (earlier ++ [last])).flush = .ok flushed →
        flushed.registry.schema.Unreferenced last.table := by
  obtain ⟨table, action⟩ := last
  cases action <;> first | rfl | cases hrename

theorem harmless_iff_of_not_renameTable (hrename : last.action.isRenameTable = false) :
    compilation.Harmless earlier last ↔
      ∀ column ∈ last.action.columns,
        (Declaration.followAll
          ((compilation.declareAll earlier).queue.overtaken last) column).target? =
            column.target? := by
  obtain ⟨table, action⟩ := last
  cases action <;> first | rfl | cases hrename

theorem schema_flush_declareAll (hcoherent : compilation.Coherent)
    (hopen : compilation.migrations ≠ []) (declarations : List Declaration) :
    (compilation.declareAll declarations).flush.toOption.map (·.registry.schema) =
      Schema.applyAll compilation.settings.replaceExistingTables
        (compilation.queue.declareAll declarations).declarations
        compilation.registry.schema := by
  have hflush := schema_flush (coherent_declareAll hcoherent declarations).opened
  rw [declareAll_eq hopen] at hflush ⊢
  exact hflush

theorem flushesAsDeclared_nil (hempty : compilation.queue = .empty) :
    compilation.FlushesAsDeclared [] := by
  have hisEmpty : (compilation.declareAll []).queue.isEmpty = true := by
    change compilation.queue.isEmpty = true
    rw [hempty]
    rfl
  rw [FlushesAsDeclared, flush_eq, if_pos hisEmpty]
  rfl

/-- A flush that gives the schema of the order of declaration still does so after
a harmless declaration. -/
theorem flushesAsDeclared_concat (hcoherent : compilation.Coherent)
    (hopen : compilation.migrations ≠ []) (hearlier : compilation.FlushesAsDeclared earlier)
    (hharmless : compilation.Harmless earlier last) :
    compilation.FlushesAsDeclared (earlier ++ [last]) := by
  have hcovers := Queue.covers_declareAll hcoherent.covers earlier
  have hnow := schema_flush_declareAll hcoherent hopen (earlier ++ [last])
  rw [FlushesAsDeclared, schema_flush_declareAll hcoherent hopen] at hearlier
  rw [Queue.declareAll_concat] at hnow
  rw [FlushesAsDeclared, Schema.applyAll_append, Schema.applyAll_single, ← hearlier]
  cases hrename : last.action.isRenameTable with
  | true =>
      rw [harmless_iff_of_renameTable hrename] at hharmless
      rw [Schema.applyAll_declare_renameTable hcovers hrename, ← hnow]
      cases hflush : (compilation.declareAll (earlier ++ [last])).flush with
      | error error => rfl
      | ok flushed =>
          obtain ⟨new, hnew⟩ := Action.isRenameTable_iff.mp hrename
          have hkept := Schema.mapColumns_retarget_of_unreferenced new (hharmless flushed hflush)
          simp only [Except.toOption, Option.map_some, Option.some.injEq]
          rw [Declaration.follow_of_renameTable hnew, hkept]
  | false =>
      rw [harmless_iff_of_not_renameTable hrename, declareAll_eq hopen] at hharmless
      have hkept : last.mapColumns (Declaration.followAll
          ((compilation.queue.declareAll earlier).overtaken last)) = last := by
        rw [Declaration.mapColumns, Action.mapColumns_eq_self]
        exact fun column hmem => Declaration.followAll_eq_self (hharmless column hmem)
      rw [hnow, Schema.applyAll_declare hcovers hrename, hkept]

/-- A declaration after which the references are still as declared is harmless. -/
theorem harmless_of_referencesAsDeclared (hcoherent : compilation.Coherent)
    (hopen : compilation.migrations ≠ []) (hearlier : compilation.FlushesAsDeclared earlier)
    (hreferences : compilation.ReferencesAsDeclared (earlier ++ [last])) :
    compilation.Harmless earlier last := by
  have hcovers := Queue.covers_declareAll hcoherent.covers earlier
  have hnow := schema_flush_declareAll hcoherent hopen (earlier ++ [last])
  obtain ⟨flushed, schema, hflush, hschema, htargets⟩ := hreferences
  rw [FlushesAsDeclared, schema_flush_declareAll hcoherent hopen] at hearlier
  rw [hflush, Queue.declareAll_concat] at hnow
  change some flushed.registry.schema = _ at hnow
  rw [Schema.applyAll_append, Schema.applyAll_single, ← hearlier] at hschema
  cases hrename : last.action.isRenameTable with
  | true =>
      rw [harmless_iff_of_renameTable hrename]
      intro flushed' hflush'
      obtain rfl : flushed = flushed' := Except.ok.inj (hflush.symm.trans hflush')
      obtain ⟨new, hnew⟩ := Action.isRenameTable_iff.mp hrename
      obtain ⟨middle, -, hlast⟩ := Option.bind_eq_some_iff.mp hschema
      have hmoved : new ≠ last.table := by
        obtain ⟨table, action⟩ := last
        subst hnew
        exact Schema.ne_of_apply_renameTable hlast
      rw [Schema.applyAll_declare_renameTable hcovers hrename, ← hnow, Option.map_some,
        Option.some.injEq, Declaration.follow_of_renameTable hnew] at hschema
      rw [← hschema] at htargets
      exact Schema.unreferenced_of_targets_eq hmoved htargets.symm
  | false =>
      rw [harmless_iff_of_not_renameTable hrename, declareAll_eq hopen]
      rw [Schema.applyAll_declare hcovers hrename] at hnow
      obtain ⟨middle, hmiddle, hlast⟩ := Option.bind_eq_some_iff.mp hschema
      rw [hmiddle, Option.bind_some] at hnow
      exact Schema.target?_of_targets_eq hnow.symm hlast htargets

theorem referencesAsDeclared_of_flushesAsDeclared
    (hflushes : compilation.FlushesAsDeclared declarations) {schema : Schema}
    (hschema : Schema.applyAll compilation.settings.replaceExistingTables declarations
      compilation.registry.schema = some schema) :
    compilation.ReferencesAsDeclared declarations := by
  rw [FlushesAsDeclared, hschema] at hflushes
  obtain ⟨flushed, hflush, hflushed⟩ := Option.map_eq_some_iff.mp hflushes
  exact ⟨flushed, schema, toOption_eq_some_iff.mp hflush, hschema, by rw [hflushed]⟩

/-- What holds at the beginning of a sequence and is kept by each member in its
turn holds at every point of the sequence. -/
theorem prefix_induction {property : List Declaration → Prop} (hnil : property [])
    (hconcat : ∀ earlier last, earlier ++ [last] <+: declarations → property earlier →
      property (earlier ++ [last])) :
    ∀ earlier, earlier <+: declarations → property earlier := by
  intro earlier
  induction earlier using List.reverseRecOn with
  | nil => exact fun _ => hnil
  | append_singleton earlier last ih =>
      intro hprefix
      exact hconcat earlier last hprefix (ih ((List.prefix_append earlier [last]).trans hprefix))

/-- The references are as declared at every point of a sequence exactly when every
declaration in it is harmless. -/
theorem referencesAsDeclared_iff_harmless (settings : Settings) (commands : List Command)
    (declarations : List Declaration)
    (hopen : ((new settings).run commands).migrations ≠ [])
    (hempty : ((new settings).run commands).queue = .empty)
    (hflush : ∃ flushed,
      (((new settings).run commands).declareAll declarations).flush = .ok flushed) :
    (∀ earlier, earlier <+: declarations →
        ((new settings).run commands).ReferencesAsDeclared earlier) ↔
      ∀ earlier last, earlier ++ [last] <+: declarations →
        ((new settings).run commands).Harmless earlier last := by
  have hcoherent := coherent_run settings commands
  generalize (new settings).run commands = compilation at *
  have hnil := flushesAsDeclared_nil hempty
  constructor
  · intro hreferences
    have hflushes := prefix_induction hnil fun earlier last hprefix hearlier =>
      flushesAsDeclared_concat hcoherent hopen hearlier
        (harmless_of_referencesAsDeclared hcoherent hopen hearlier (hreferences _ hprefix))
    intro earlier last hprefix
    exact harmless_of_referencesAsDeclared hcoherent hopen
      (hflushes earlier ((List.prefix_append earlier [last]).trans hprefix))
      (hreferences _ hprefix)
  · intro hharmless
    have hflushes := prefix_induction hnil fun earlier last hprefix hearlier =>
      flushesAsDeclared_concat hcoherent hopen hearlier (hharmless earlier last hprefix)
    have hwhole := hflushes declarations List.prefix_rfl
    obtain ⟨flushed, hflush⟩ := hflush
    rw [FlushesAsDeclared, hflush] at hwhole
    rintro earlier ⟨later, rfl⟩
    rw [Schema.applyAll_append] at hwhole
    obtain ⟨schema, hschema, -⟩ := Option.bind_eq_some_iff.mp hwhole.symm
    exact referencesAsDeclared_of_flushesAsDeclared
      (hflushes earlier (List.prefix_append earlier later)) hschema

/-- A table that is tracked before the declarations of `overtaking`. -/
def tracking : Compilation :=
  (new {}).run [.start, .enqueue "species" (.createTable [{ name := "id", type := .identity }]),
    .flush]

/-- The renaming joins the batch of the first declaration and so overtakes the
table that references the old name. -/
def overtaking : List Declaration :=
  [⟨"species", .addColumn { name := "origin", type := .text } none⟩,
    ⟨"people", .createTable [{ name := "id", type := .identity },
      { name := "species", type := .foreign, references := some "species" }]⟩,
    ⟨"species", .renameTable "kinds"⟩]

/-- The flush leaves the reference at a name that no table has. -/
theorem targets_overtaking :
    (tracking.declareAll overtaking).flush.toOption.map
        (fun flushed => flushed.registry.schema.targets "people") =
          some (some [none, some "species"]) ∧
      (Schema.applyAll false overtaking tracking.registry.schema).map
        (fun schema => schema.targets "people") = some (some [none, some "kinds"]) := by
  decide

theorem not_referencesAsDeclared_overtaking : ¬tracking.ReferencesAsDeclared overtaking := by
  obtain ⟨hflush, happly⟩ := targets_overtaking
  rintro ⟨flushed, schema, hflushed, hschema, htargets⟩
  change Schema.applyAll false overtaking tracking.registry.schema = some schema at hschema
  rw [hflushed] at hflush
  rw [hschema] at happly
  have hbehind : flushed.registry.schema.targets "people" = some [none, some "species"] :=
    Option.some.inj hflush
  have hdeclared : schema.targets "people" = some [none, some "kinds"] := Option.some.inj happly
  rw [htargets, hdeclared] at hbehind
  simp at hbehind

theorem not_harmless_overtaking :
    tracking.migrations ≠ [] ∧ tracking.queue = .empty ∧
      (∃ flushed, (tracking.declareAll overtaking).flush = .ok flushed) ∧
      ¬∀ earlier last, earlier ++ [last] <+: overtaking → tracking.Harmless earlier last := by
  have hopen : tracking.migrations ≠ [] := by decide
  have hempty : tracking.queue = .empty := by decide
  obtain ⟨flushed, hflushed, -⟩ := Option.map_eq_some_iff.mp targets_overtaking.1
  have hflush : ∃ flushed, (tracking.declareAll overtaking).flush = .ok flushed :=
    ⟨flushed, toOption_eq_some_iff.mp hflushed⟩
  refine ⟨hopen, hempty, hflush, fun hharmless => ?_⟩
  have hreferences := (referencesAsDeclared_iff_harmless {} _ overtaking hopen hempty
    hflush).mpr hharmless
  exact not_referencesAsDeclared_overtaking (hreferences overtaking List.prefix_rfl)

end Compilation

end SchemaMigration
