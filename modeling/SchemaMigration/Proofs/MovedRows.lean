import SchemaMigration.Proofs.Rows

/-!
# What an alteration makes of the rows

An alteration in place and a rebuild fill the columns of a table alike, but for
the fallbacks that wait on them: only a rebuild puts a fallback in.  Whether two
engines leave the same rows is therefore seen from the waiting fallbacks alone.
-/

namespace SchemaMigration

variable {Value : Type} (evaluate : Literal → Option Value)

theorem mapM_eq_some_map {ι β : Type} {items : List ι} {compute : ι → Option β} {f : ι → β}
    (hcompute : ∀ item ∈ items, compute item = some (f item)) :
    items.mapM compute = some (items.map f) := by
  induction items with
  | nil => rfl
  | cons first rest ih =>
      rw [List.forall_mem_cons] at hcompute
      rw [List.mapM_cons, hcompute.1, ih hcompute.2]
      rfl

namespace TableColumn

/-- What a column holds on a stored row as long as nothing is put in: the value of
the stored column that it began as, or its default. -/
def carried (values : String → Option Value) (entry : TableColumn) : Option Value :=
  match entry.source? with
  | some origin => values origin
  | none => entry.column.initial evaluate

/-- What it holds once a rebuild has put in the fallback that waits on it. -/
def rebuilt (values : String → Option Value) (entry : TableColumn) : Option Value :=
  match entry.coalesce?, entry.source? with
  | none, _ => entry.carried evaluate values
  | some fallback, some origin => (values origin).or (evaluate fallback)
  | some fallback, none => evaluate fallback

def carriedCell (values : String → Option Value) (entry : TableColumn) : Cell Value :=
  ⟨entry.name, entry.carried evaluate values⟩

def rebuiltCell (values : String → Option Value) (entry : TableColumn) : Cell Value :=
  ⟨entry.name, entry.rebuilt evaluate values⟩

theorem hom_carriedCell (values : String → Option Value) :
    Columns.Hom (carriedCell evaluate values) where
  name_eq _ := rfl
  withName_eq new entry := by
    have hcarried : (entry.rename new).carried evaluate values = entry.carried evaluate values := by
      rw [carried, source?_rename]
      rfl
    exact congrArg (Cell.mk new) hcarried

theorem hom_blankCell :
    Columns.Hom fun entry : TableColumn => entry.column.blankCell evaluate :=
  ⟨fun _ => rfl, fun _ _ => rfl⟩

end TableColumn

/-! ## In place -/

namespace Content

/-- The content of a table with the given entries, which record where the values
of the stored rows lie. -/
def ofEntries (entries : List TableColumn) (valuations : List (String → Option Value)) :
    Content Value where
  blank := entries.map fun entry => entry.column.blankCell evaluate
  rows := valuations.map fun values => entries.map (TableColumn.carriedCell evaluate values)

theorem holding_columns {stored : Table} (hkept : ∀ entry ∈ stored.entries, entry.origin = .kept)
    (valuations : List (String → Option Value)) :
    holding evaluate stored.columns valuations = ofEntries evaluate stored.entries valuations := by
  have hcells : ∀ values : String → Option Value, ∀ entry ∈ stored.entries,
      Cell.mk entry.column.name (values entry.column.name) =
        TableColumn.carriedCell evaluate values entry := by
    intro values entry hmem
    rw [TableColumn.carriedCell, TableColumn.carried, TableColumn.source?, hkept entry hmem]
    rfl
  simp only [holding, ofEntries, Table.columns, List.map_map, mk.injEq]
  refine ⟨rfl, List.map_congr_left fun values _ => ?_⟩
  exact List.map_congr_left (hcells values)

variable {evaluate}

/-- A change that does to cells what an action does to the entries they are of. -/
theorem alter_ofEntries {action : Action} {entries changed : List TableColumn}
    {change : Row Value → Option (Row Value)}
    (hchange : ∀ cell : TableColumn → Cell Value, Columns.Hom cell →
      (∀ column params, cell ⟨column, params, .added⟩ = column.blankCell evaluate) →
        change (entries.map cell) = (action.onEntries entries).map (List.map cell))
    (hstep : action.onEntries entries = some changed)
    (valuations : List (String → Option Value)) :
    (ofEntries evaluate entries valuations).alter change =
      some (ofEntries evaluate changed valuations) := by
  have hblank := hchange _ (TableColumn.hom_blankCell evaluate) fun _ _ => rfl
  have hrows : (ofEntries evaluate entries valuations).rows.mapM change =
      some (ofEntries evaluate changed valuations).rows := by
    rw [ofEntries, List.mapM_map]
    refine mapM_eq_some_map fun values _ => ?_
    rw [Function.comp_apply, hchange _ (TableColumn.hom_carriedCell evaluate values)
      fun _ _ => rfl, hstep, Option.map_some]
  rw [hstep, Option.map_some] at hblank
  rw [alter, hrows]
  simp only [ofEntries, hblank, Option.bind_eq_bind, Option.bind_some]
  rfl

end Content

variable {evaluate}

namespace Planner

variable {planner : Planner} {source : String} {store : Store Value}
  {valuations : List (String → Option Value)}

/-- A statement that alters a table in place does to its rows what its action does
to the entries of the table. -/
theorem execRows_direct {action : Action} {statement : Statement}
    {entries changed : List TableColumn} (hcolumn : action.isColumnChange = true)
    (hdirect : planner.direct source action = .ok statement)
    (hstep : action.onEntries entries = some changed)
    (hstore : store source = some (Content.ofEntries evaluate entries valuations)) :
    statement.execRows evaluate store =
      some (Function.update store source
        (some (Content.ofEntries evaluate changed valuations))) := by
  have halter : ∀ change : Row Value → Option (Row Value),
      (∀ cell : TableColumn → Cell Value, Columns.Hom cell →
        (∀ column params, cell ⟨column, params, .added⟩ = column.blankCell evaluate) →
          change (entries.map cell) = (action.onEntries entries).map (List.map cell)) →
      Store.alter store source change =
        some (Function.update store source
          (some (Content.ofEntries evaluate changed valuations))) := by
    intro change hchange
    rw [Store.alter, hstore, Option.bind_some, Content.alter_ofEntries hchange hstep]
    rfl
  cases writes_of_direct hdirect with
  | addColumn column params =>
      apply halter
      intro cell hom hadded
      rw [← hadded column params]
      exact hom.add_map _ entries
  | dropColumn name => exact halter _ fun cell hom _ => hom.drop_map name entries
  | renameColumn old new => exact halter _ fun cell hom _ => hom.rename_map old new entries
  | renameTable new => cases hcolumn

theorem execRowsAll_direct {actions : List Action} {statements : List Statement}
    {entries changed : List TableColumn}
    (hchanges : ∀ action ∈ actions, action.isColumnChange = true)
    (hdirect : actions.mapM (planner.direct source) = .ok statements)
    (hsteps : Action.onEntriesAll actions entries = some changed)
    (hstore : store source = some (Content.ofEntries evaluate entries valuations)) :
    Statement.execRowsAll evaluate statements store =
      some (Function.update store source
        (some (Content.ofEntries evaluate changed valuations))) := by
  induction actions generalizing statements entries store with
  | nil =>
      cases hdirect
      cases hsteps
      rw [← hstore, Function.update_eq_self]
      rfl
  | cons first rest ih =>
      rw [List.forall_mem_cons] at hchanges
      obtain ⟨statement, others, hfirst, hrest, rfl⟩ := mapM_cons_eq_ok hdirect
      rw [Action.onEntriesAll, List.foldlM_cons] at hsteps
      obtain ⟨middle, hmiddle, hlater⟩ := Option.bind_eq_some_iff.mp hsteps
      have hheld : Function.update store source
          (some (Content.ofEntries evaluate middle valuations)) source =
            some (Content.ofEntries evaluate middle valuations) := Function.update_self ..
      rw [Statement.execRowsAll_cons, execRows_direct hchanges.1 hfirst hmiddle hstore,
        Option.bind_some, ih hchanges.2 hrest hlater hheld, Function.update_idem]

end Planner

/-! ## By a rebuild -/

namespace Table

/-- The copy gives a column the expression that its entry asks for, if any. -/
theorem lookup_copies {table : Table} (hdistinct : table.columnNames.Nodup)
    {entry : TableColumn} (hmem : entry ∈ table.entries) :
    table.copies.lookup entry.name = entry.copyExpression? := by
  obtain ⟨name, entries⟩ := table
  simp only [columnNames, copies] at hdistinct hmem ⊢
  induction entries with
  | nil => cases hmem
  | cons first rest ih =>
      rw [List.map_cons, List.nodup_cons] at hdistinct
      rw [List.filterMap_cons]
      rcases List.mem_cons.mp hmem with rfl | hrest
      · have hlater : (rest.filterMap fun later =>
            later.copyExpression?.map fun expression => (later.name, expression)).lookup
              entry.name = none := by
          rw [List.lookup_eq_none_iff]
          intro pair hpair
          obtain ⟨later, hmem, hcopy⟩ := List.mem_filterMap.mp hpair
          obtain ⟨expression, -, rfl⟩ := Option.map_eq_some_iff.mp hcopy
          have hne : entry.name ≠ later.name := fun hsame =>
            hdistinct.1 (hsame ▸ List.mem_map_of_mem hmem)
          simpa using hne
        cases entry.copyExpression? with
        | none => exact hlater
        | some expression => exact List.lookup_cons_self
      · have hne : entry.name ≠ first.name := fun hsame =>
          hdistinct.1 (hsame ▸ List.mem_map_of_mem hrest)
        cases first.copyExpression? with
        | none => exact ih hdistinct.2 hrest
        | some expression =>
            rw [Option.map_some, List.lookup_cons, beq_false_of_ne hne]
            exact ih hdistinct.2 hrest

end Table

namespace Row

/-- What a row with the given values has in one of its columns. -/
theorem value?_of_mem {columns : List Column} {name : String}
    (hmem : name ∈ columns.map Column.name) (values : String → Option Value) :
    value? (columns.map fun column => ⟨column.name, values column.name⟩) name =
      some (values name) := by
  rw [value?, List.find?_map]
  cases hfind : columns.find? (fun column => column.name = name) with
  | none =>
      obtain ⟨column, hcolumn, hname⟩ := List.mem_map.mp hmem
      exact absurd hname (by simpa using List.find?_eq_none.mp hfind column hcolumn)
  | some column =>
      have hname : column.name = name := by simpa using List.find?_some hfind
      have hcell : columns.find? ((fun cell : Cell Value => decide (cell.name = name)) ∘
          fun column => ⟨column.name, values column.name⟩) = some column := hfind
      rw [hcell, ← hname]
      rfl

variable {stored target : Table}

/-- A stored row copied into the final shape of its table. -/
theorem copy_holding (hdistinct : target.columnNames.Nodup)
    (hunfilled : ∀ entry ∈ target.entries, entry.fillFrom? = none)
    (hsources : ∀ entry ∈ target.entries, ∀ origin, entry.source? = some origin →
      origin ∈ stored.columns.map Column.name)
    (values : String → Option Value) :
    copy evaluate (target.columns.map (Column.blankCell evaluate)) target.copies
        (stored.columns.map fun column => ⟨column.name, values column.name⟩) =
      some (target.entries.map (TableColumn.rebuiltCell evaluate values)) := by
  have hblank : target.columns.map (Column.blankCell evaluate) =
      target.entries.map (Column.blankCell evaluate ∘ TableColumn.column) := List.map_map
  rw [copy, hblank, List.mapM_map]
  refine mapM_eq_some_map fun entry hmem => ?_
  have hlookup : target.copies.lookup entry.column.name =
      CopyExpression.reading? entry.source? entry.coalesce? :=
    (Table.lookup_copies hdistinct hmem).trans
      (TableColumn.copyExpression?_of_unfilled (hunfilled entry hmem))
  have hread : ∀ origin, entry.source? = some origin →
      value? (stored.columns.map fun column => ⟨column.name, values column.name⟩) origin =
        some (values origin) :=
    fun origin horigin => value?_of_mem (hsources entry hmem origin horigin) values
  simp only [Function.comp_apply, Column.blankCell, hlookup, TableColumn.rebuiltCell,
    TableColumn.rebuilt, TableColumn.carried]
  cases hsource : entry.source? with
  | none => cases entry.coalesce? <;> rfl
  | some origin =>
      have hvalue := hread origin hsource
      cases entry.coalesce? <;> simp [CopyExpression.reading?, CopyExpression.eval, hvalue,
        TableColumn.name]

end Row

namespace Table

variable {stored target : Table} {source : String} {store : Store Value}

/-- A rebuild under the same name replaces the rows of the stored table by their
copies. -/
theorem execRowsAll_rebuild {content : Content Value} {copied : List (Row Value)}
    (hname : target.name = source) (hcopies : target.copies ≠ [])
    (hstore : store source = some content) (hscratch : store target.scratchName = none)
    (hcopied : content.rows.mapM (Row.copy evaluate
      (target.columns.map (Column.blankCell evaluate)) target.copies) = some copied) :
    Statement.execRowsAll evaluate (target.rebuild source) store =
      some (Function.update store source
        (some ⟨target.columns.map (Column.blankCell evaluate), copied⟩)) := by
  have hother : source ≠ target.scratchName := by
    rintro rfl
    simp [hscratch] at hstore
  generalize hblank : target.columns.map (Column.blankCell evaluate) = blank at hcopied ⊢
  obtain ⟨filled, hfilled⟩ : ∃ filled, filled =
      Function.update store target.scratchName (some ⟨blank, copied⟩) := ⟨_, rfl⟩
  have hcreate : (Statement.createTable target.scratchName target.columns).execRows evaluate store =
      some (Function.update store target.scratchName (some ⟨blank, []⟩)) := by
    rw [Statement.execRows, hscratch, hblank]
    rfl
  have hcopy : (Statement.copyRows target.scratchName target.copies source).execRows evaluate
      (Function.update store target.scratchName (some ⟨blank, []⟩)) = some filled := by
    rw [Statement.execRows, if_neg (by simpa using hcopies), Function.update_self,
      Function.update_of_ne hother, hstore]
    simp [hcopied, hfilled]
  have hdrop : (Statement.dropTable source).execRows evaluate filled =
      some (Function.update filled source none) := by
    rw [Statement.execRows, hfilled, Function.update_of_ne hother, hstore]
    rfl
  have hmove : (Statement.renameTable target.scratchName target.name).execRows evaluate
      (Function.update filled source none) =
        some (Function.update store source (some ⟨blank, copied⟩)) := by
    have hgone : Function.update (Function.update filled source none) target.scratchName none =
        Function.update store source none := by
      rw [hfilled, Function.update_comm hother.symm, Function.update_idem,
        Function.update_eq_self_iff, Function.update_of_ne hother.symm, hscratch]
    rw [Statement.execRows, Function.update_of_ne hother.symm, hfilled, Function.update_self,
      Option.bind_some, hname, Function.update_self, ← hfilled, hgone, Function.update_idem]
    rfl
  rw [rebuild, Statement.execRowsAll_cons, hcreate, Option.bind_some,
    Statement.execRowsAll_cons, hcopy, Option.bind_some, Statement.execRowsAll_cons, hdrop,
    Option.bind_some, Statement.execRowsAll_cons, hmove]
  rfl

end Table

/-! ## By one engine or another -/

namespace Planner

section Paths

variable {planner : Planner} {registry : Registry} {source : String} {stored target : Table}
  {actions : List Action}

theorem exists_planAlteration_direct (halters : Segment.Alters actions)
    (hfind : registry.find? source = some stored)
    (happly : registry.applyAll stored actions = .ok target)
    (hdirect : planner.needsRebuild registry stored actions = false) :
    ∃ next statements, actions.mapM (planner.direct source) = .ok statements ∧
      planner.planAlteration registry source actions =
        .ok (next, ⟨target.name, statements, 0⟩) := by
  obtain ⟨⟨next, batch⟩, hplan⟩ := exists_planAlteration planner halters hfind happly
  obtain ⟨stored', target', hfind', happly', houtcome⟩ := planAlteration_ok hplan
  cases hfind.symm.trans hfind'
  cases happly.symm.trans happly'
  rcases houtcome with ⟨hrebuild, -, -⟩ | ⟨-, -, statements, hstatements, rfl⟩
  · rw [hdirect] at hrebuild
    cases hrebuild
  · exact ⟨next, statements, hstatements, hplan⟩

theorem exists_planAlteration_rebuild (halters : Segment.Alters actions)
    (hfind : registry.find? source = some stored)
    (happly : registry.applyAll stored actions = .ok target)
    (hrebuild : planner.needsRebuild registry stored actions = true) :
    ∃ next, planner.planAlteration registry source actions =
      .ok (next, ⟨target.name, target.rebuild source, 1⟩) := by
  obtain ⟨⟨next, batch⟩, hplan⟩ := exists_planAlteration planner halters hfind happly
  obtain ⟨stored', target', hfind', happly', houtcome⟩ := planAlteration_ok hplan
  cases hfind.symm.trans hfind'
  cases happly.symm.trans happly'
  rcases houtcome with ⟨-, -, rfl⟩ | ⟨hdirect, -, -⟩
  · exact ⟨next, hplan⟩
  · rw [hrebuild] at hdirect
    cases hdirect

end Paths

section Rows

variable {planner : Planner} {registry : Registry} {source : String} {stored target : Table}
  {actions : List Action} {store : Store Value} {valuations : List (String → Option Value)}

theorem alters_of_changes (hne : actions ≠ [])
    (hchanges : ∀ action ∈ actions, action.isColumnChange = true) : Segment.Alters actions :=
  ⟨hne, actions, none, (List.append_nil actions).symm, hchanges⟩

theorem rowsAfter_eq {planner : Planner} {next : Registry} {batch : BatchPlan}
    (hplan : planner.planAlteration registry source actions = .ok (next, batch)) :
    planner.rowsAfter evaluate registry source actions store =
      (Statement.execRowsAll evaluate batch.statements store).bind fun final =>
        (final batch.table).map Content.rows := by
  rw [rowsAfter, hplan]
  rfl

/-- In place every row keeps what its columns hold, added columns their defaults. -/
theorem rowsAfter_of_direct (hne : actions ≠ [])
    (hchanges : ∀ action ∈ actions, action.isColumnChange = true)
    (hfind : registry.find? source = some stored)
    (hkept : ∀ entry ∈ stored.entries, entry.origin = .kept)
    (happly : registry.applyAll stored actions = .ok target)
    (hdirect : planner.needsRebuild registry stored actions = false)
    (hstore : store source = some (Content.holding evaluate stored.columns valuations)) :
    planner.rowsAfter evaluate registry source actions store =
      some (valuations.map fun values =>
        target.entries.map (TableColumn.carriedCell evaluate values)) := by
  have hname := (Registry.name_of_applyAll_changes hchanges happly).trans
    (Registry.name_of_find? hfind)
  have hsteps := Registry.toOption_applyAll registry hchanges stored
  rw [happly] at hsteps
  obtain ⟨entries, hentries, rfl⟩ := Option.map_eq_some_iff.mp hsteps.symm
  rw [Content.holding_columns evaluate hkept] at hstore
  obtain ⟨next, statements, hstatements, hplan⟩ :=
    exists_planAlteration_direct (alters_of_changes hne hchanges) hfind happly hdirect
  rw [rowsAfter_eq hplan, execRowsAll_direct hchanges hstatements hentries hstore,
    Option.bind_some, hname, Function.update_self]
  rfl

/-- The rows after a rebuild are what its statements make of them, whatever else
the planner may do. -/
theorem rowsAfter_of_rebuild (hne : actions ≠ [])
    (hchanges : ∀ action ∈ actions, action.isColumnChange = true)
    (hfind : registry.find? source = some stored)
    (happly : registry.applyAll stored actions = .ok target)
    (hrebuild : planner.needsRebuild registry stored actions = true) :
    planner.rowsAfter evaluate registry source actions store =
      (Statement.execRowsAll evaluate (target.rebuild source) store).bind fun final =>
        (final target.name).map Content.rows := by
  obtain ⟨next, hplan⟩ :=
    exists_planAlteration_rebuild (alters_of_changes hne hchanges) hfind happly hrebuild
  exact rowsAfter_eq hplan

/-- A rebuild that fills no column from another puts in the waiting fallbacks. -/
theorem rowsAfter_of_unfilled (hne : actions ≠ [])
    (hchanges : ∀ action ∈ actions, action.isColumnChange = true)
    (hfind : registry.find? source = some stored) (hsettled : stored.Settled)
    (happly : registry.applyAll stored actions = .ok target)
    (hunfilled : ∀ entry ∈ target.entries, entry.fillFrom? = none)
    (hcopies : target.copies ≠ []) (hscratch : store target.scratchName = none)
    (hrebuild : planner.needsRebuild registry stored actions = true)
    (hstore : store source = some (Content.holding evaluate stored.columns valuations)) :
    planner.rowsAfter evaluate registry source actions store =
      some (valuations.map fun values =>
        target.entries.map (TableColumn.rebuiltCell evaluate values)) := by
  have hname := (Registry.name_of_applyAll_changes hchanges happly).trans
    (Registry.name_of_find? hfind)
  have hsources : ∀ entry ∈ target.entries, ∀ origin, entry.source? = some origin →
      origin ∈ stored.columns.map Column.name := by
    intro entry hmem origin horigin
    have htraced := Table.traced_of_changes hsettled.nodup hsettled.kept hchanges happly
    have hstored := htraced.sublist.subset (List.mem_filterMap.mpr ⟨entry, hmem, horigin⟩)
    rwa [Table.columns, List.map_map]
  have hcopied : (Content.holding evaluate stored.columns valuations).rows.mapM
      (Row.copy evaluate (target.columns.map (Column.blankCell evaluate)) target.copies) =
        some (valuations.map fun values =>
          target.entries.map (TableColumn.rebuiltCell evaluate values)) := by
    rw [Content.holding, List.mapM_map]
    refine mapM_eq_some_map fun values _ => ?_
    exact Row.copy_holding (Registry.nodup_applyAll hsettled.nodup happly) hunfilled hsources values
  rw [rowsAfter_of_rebuild hne hchanges hfind happly hrebuild,
    Table.execRowsAll_rebuild hname hcopies hstore hscratch hcopied, Option.bind_some, hname,
    Function.update_self]
  rfl

/-- A fallback that waits on a column changes nothing on a row: it yields to what the
column began as there, or is what an added column holds anyway. -/
def FallbackIdle (evaluate : Literal → Option Value) (stored : Table) (followed : List Action)
    (values : String → Option Value) (column : Column) : Prop :=
  ∀ fallback, Action.coalesceOf stored followed column.name = some fallback →
    match Action.originOf followed column.name with
    | some origin => values origin = none → evaluate fallback = none
    | none => evaluate fallback = column.initial evaluate

theorem carried_eq_rebuilt_iff {followed : List Action} {entries : List TableColumn}
    (htraced : Table.Traced stored followed entries) {entry : TableColumn}
    (hmem : entry ∈ entries) (values : String → Option Value) :
    entry.carried evaluate values = entry.rebuilt evaluate values ↔
      FallbackIdle evaluate stored followed values entry.column := by
  have hsource := htraced.source_eq entry hmem
  have hcoalesce := htraced.coalesce?_eq hmem
  change entry.source? = Action.originOf followed entry.column.name at hsource
  change entry.coalesce? = Action.coalesceOf stored followed entry.column.name at hcoalesce
  rw [FallbackIdle, ← hsource, ← hcoalesce, TableColumn.rebuilt, TableColumn.carried]
  cases entry.coalesce? with
  | none => simp
  | some fallback =>
      simp only [Option.some.injEq, forall_eq']
      cases entry.source? with
      | none => exact eq_comm
      | some origin =>
          change values origin = (values origin).or (evaluate fallback) ↔
            (values origin = none → evaluate fallback = none)
          cases values origin with
          | none => simp [eq_comm]
          | some value => simp

/-- The rows that an engine leaves which rebuilds the table are those that an engine
leaves which alters it in place, if every waiting fallback is idle on every row. -/
theorem carried_rows_eq_rebuilt_rows_iff {followed : List Action}
    (htraced : Table.Traced stored followed target.entries) :
    (valuations.map fun values => target.entries.map (TableColumn.carriedCell evaluate values)) =
        (valuations.map fun values =>
          target.entries.map (TableColumn.rebuiltCell evaluate values)) ↔
      ∀ values ∈ valuations, ∀ column ∈ target.columns,
        FallbackIdle evaluate stored followed values column := by
  rw [List.map_inj_left]
  refine forall₂_congr fun values _ => ?_
  rw [List.map_inj_left, Table.columns, List.forall_mem_map]
  refine forall₂_congr fun entry hmem => ?_
  rw [← carried_eq_rebuilt_iff htraced hmem, TableColumn.carriedCell, TableColumn.rebuiltCell,
    Cell.mk.injEq]
  exact and_iff_right rfl

/-- Two planners of which one alters in place leave rows, and the same rows exactly
when the other does so too or every waiting fallback is idle. -/
theorem rowsAfter_of_settled (first second : Planner) (hne : actions ≠ [])
    (hchanges : ∀ action ∈ actions, action.isColumnChange = true)
    (hfind : registry.find? source = some stored) (hsettled : stored.Settled)
    (happly : registry.applyAll stored actions = .ok target)
    (hcopies : target.copies ≠ []) (hscratch : store target.scratchName = none)
    (hdirect : first.needsRebuild registry stored actions = false)
    (hstore : store source = some (Content.holding evaluate stored.columns valuations)) :
    (first.rowsAfter evaluate registry source actions store).isSome = true ∧
      (second.rowsAfter evaluate registry source actions store).isSome = true ∧
      (first.rowsAfter evaluate registry source actions store =
          second.rowsAfter evaluate registry source actions store ↔
        second.needsRebuild registry stored actions = false ∨
          ∀ values ∈ valuations, ∀ column ∈ target.columns,
            FallbackIdle evaluate stored actions.reverse values column) := by
  have hfirst := rowsAfter_of_direct hne hchanges hfind hsettled.kept happly hdirect hstore
  by_cases hrebuild : second.needsRebuild registry stored actions = true
  · have hunfilled := (inPlace_of_needsRebuild happly hdirect).unfilled hsettled.unfilled
    have hsecond := rowsAfter_of_unfilled hne hchanges hfind hsettled happly hunfilled hcopies
      hscratch hrebuild hstore
    have htraced := Table.traced_of_changes hsettled.nodup hsettled.kept hchanges happly
    rw [hfirst, hsecond, Option.some.injEq, carried_rows_eq_rebuilt_rows_iff htraced, hrebuild]
    simp
  · rw [Bool.not_eq_true] at hrebuild
    have hsecond := rowsAfter_of_direct hne hchanges hfind hsettled.kept happly hrebuild hstore
    rw [hfirst, hsecond]
    simp [hrebuild]

end Rows

end Planner

namespace Compilation

/-- What becomes of the rows of a table whose columns are changed does not depend on
what the engine can alter, unless one engine needs a rebuild, another does not, and
a fallback waits on a column that takes effect on some row. -/
theorem rowsAfter_eq_iff (settings : Settings) (commands : List Command)
    (evaluate : Literal → Option Value) (first second : Planner) {registry : Registry}
    {source : String} {stored target : Table} {actions : List Action} {store : Store Value}
    {valuations : List (String → Option Value)}
    (hreached : ((new settings).run commands).registry = registry)
    (hfind : registry.find? source = some stored) (hne : actions ≠ [])
    (hchanges : ∀ action ∈ actions, action.isColumnChange = true)
    (happly : registry.applyAll stored actions = .ok target)
    (hcopies : target.copies ≠ [])
    (hstore : store source = some (Content.holding evaluate stored.columns valuations))
    (hscratch : store target.scratchName = none) :
    (first.needsRebuild registry stored actions = false ∨
        second.needsRebuild registry stored actions = false →
      (first.rowsAfter evaluate registry source actions store).isSome = true ∧
        (second.rowsAfter evaluate registry source actions store).isSome = true) ∧
      (first.rowsAfter evaluate registry source actions store =
          second.rowsAfter evaluate registry source actions store ↔
        first.needsRebuild registry stored actions =
            second.needsRebuild registry stored actions ∨
          ∀ values ∈ valuations, ∀ column ∈ target.columns,
            Planner.FallbackIdle evaluate stored actions.reverse values column) := by
  have hsettled : stored.Settled := by
    rw [← hreached] at hfind
    exact (settled_run settings commands).find? hfind
  cases hfirst : first.needsRebuild registry stored actions with
  | false =>
      obtain ⟨hfirstRows, hsecondRows, hsame⟩ := Planner.rowsAfter_of_settled first second hne
        hchanges hfind hsettled happly hcopies hscratch hfirst hstore
      exact ⟨fun _ => ⟨hfirstRows, hsecondRows⟩, by rw [hsame, eq_comm]⟩
  | true =>
      cases hsecond : second.needsRebuild registry stored actions with
      | false =>
          obtain ⟨hsecondRows, hfirstRows, hsame⟩ := Planner.rowsAfter_of_settled second first
            hne hchanges hfind hsettled happly hcopies hscratch hsecond hstore
          exact ⟨fun _ => ⟨hfirstRows, hsecondRows⟩, by rw [eq_comm, hsame, hfirst]⟩
      | true =>
          have hsame : first.rowsAfter evaluate registry source actions store =
              second.rowsAfter evaluate registry source actions store := by
            rw [Planner.rowsAfter_of_rebuild hne hchanges hfind happly hfirst,
              Planner.rowsAfter_of_rebuild hne hchanges hfind happly hsecond]
          exact ⟨fun hdirect => by simp at hdirect, by simp [hsame]⟩

/-- An engine that alters everything in place, and one that alters nothing. -/
def capable : Planner := ⟨"sqlite", ⟨true, true, true⟩, false⟩

def incapable : Planner := ⟨"sqlite", .empty, false⟩

def people : Table where
  name := "people"
  entries := [{ column := { name := "name", type := .text } },
    { column := { name := "age", type := .integer } }]

/-- A run that creates the table of people. -/
def peopled : List Command :=
  [.start, .enqueue "people" (.createTable people.columns), .flush]

/-- The text of a literal that is one. -/
def textOf : Literal → Option String
  | .text value => some value
  | .bool _ | .integer _ | .real _ => none

/-- One person of unknown age. -/
def census : Store String := fun name =>
  if name = "people" then
    some (Content.holding textOf people.columns
      [fun column => if column = "name" then some "Ada" else none])
  else none

/-- Adds a home with a fallback that waits for a rebuild, and renames a column. -/
def housing (default : Option Literal) : List Action :=
  [.addColumn { name := "home", type := .text, default }
      (some { coalesce := some (.text "Earth") }),
    .renameColumn "age" "years"]

/-- A fallback that is the default of the added column takes no effect. -/
theorem rowsAfter_housing :
    (capable.rowsAfter textOf ((new {}).run peopled).registry "people"
        (housing (some (.text "Earth"))) census).isSome = true ∧
      capable.rowsAfter textOf ((new {}).run peopled).registry "people"
          (housing (some (.text "Earth"))) census =
        incapable.rowsAfter textOf ((new {}).run peopled).registry "people"
          (housing (some (.text "Earth"))) census := by
  have hresult : (((new {}).run peopled).registry.applyAll people
      (housing (some (.text "Earth")))).toOption.map
        (fun target => (target.scratchName, target.copies.map Prod.fst, target.columns)) =
      some ("people_tmp", ["name", "years", "home"],
        [{ name := "name", type := .text }, { name := "years", type := .integer },
          { name := "home", type := .text, default := some (.text "Earth") }]) := by
    decide
  obtain ⟨target, htarget, hshape⟩ := Option.map_eq_some_iff.mp hresult
  simp only [Prod.mk.injEq] at hshape
  obtain ⟨hscratchName, hcopies, hcolumns⟩ := hshape
  have hcopied : target.copies ≠ [] := by
    intro hnone
    rw [hnone] at hcopies
    cases hcopies
  have hscratch : census target.scratchName = none := by
    rw [hscratchName]
    decide
  have hidle : ∀ values ∈ [fun column => if column = "name" then some "Ada" else none],
      ∀ column ∈ target.columns,
        Planner.FallbackIdle textOf people (housing (some (.text "Earth"))).reverse values
          column := by
    rw [hcolumns]
    intro values _ column hcolumn fallback hfallback
    simp only [List.mem_cons, List.not_mem_nil, or_false] at hcolumn
    rcases hcolumn with rfl | rfl | rfl
    · cases hfallback
    · cases hfallback
    · cases hfallback
      rfl
  obtain ⟨hsome, hsame⟩ := rowsAfter_eq_iff {} peopled textOf capable incapable rfl
    (by decide : ((new {}).run peopled).registry.find? "people" = some people)
    (by decide : housing (some (.text "Earth")) ≠ [])
    (by decide : ∀ action ∈ housing (some (.text "Earth")), action.isColumnChange = true)
    (toOption_eq_some_iff.mp htarget) hcopied rfl hscratch
  exact ⟨(hsome (Or.inl (by decide))).1, hsame.mpr (Or.inr hidle)⟩

/-- A fallback that takes effect on an added column makes the engines leave different
rows.  So does a copy without any column, and a table of the scratch name. -/
theorem rowsAfter_housing_ne :
    capable.rowsAfter textOf ((new {}).run peopled).registry "people" (housing none) census ≠
        incapable.rowsAfter textOf ((new {}).run peopled).registry "people" (housing none)
          census ∧
      (let moving : List Action := [.addColumn { name := "home", type := .text } none,
        .dropColumn "name", .dropColumn "age"]
      capable.rowsAfter textOf ((new {}).run peopled).registry "people" moving census ≠
        incapable.rowsAfter textOf ((new {}).run peopled).registry "people" moving census) ∧
      (let crowded : Store String := Function.update census "people_tmp" (some ⟨[], []⟩)
      capable.rowsAfter textOf ((new {}).run peopled).registry "people"
          [.renameColumn "age" "years"] crowded ≠
        incapable.rowsAfter textOf ((new {}).run peopled).registry "people"
          [.renameColumn "age" "years"] crowded) := by
  refine ⟨?_, ?_, ?_⟩
  · decide
  · decide
  · decide

end Compilation

end SchemaMigration
