import SchemaMigration.Proofs.Execution
import SchemaMigration.Proofs.KeyedColumns
import SchemaMigration.Proofs.SettledTables

/-!
# Alterations in place and the clauses of a table

What can be altered in place, and whether the clauses of the table afterwards are
those of the tracked table, is seen from the flags of the columns added and
dropped.  A rebuild writes all clauses anew.
-/

namespace SchemaMigration

namespace Table

/-- Whether the database accepts an action in place on a table in this state. -/
def accepts (table : Table) : Action → Bool
  | .addColumn column _ => !column.demandsValue
  | .dropColumn name =>
      !table.entries.any fun entry =>
        entry.name = name && entry.column.unique && entry.origin ≠ .added
  | .createTable _ | .dropTable | .renameTable _ | .changeColumn _ _ _ | .renameColumn _ _ => true

end Table

/-- Whether it accepts actions one after another, each in the state that it meets. -/
def Registry.accepts (registry : Registry) : Table → List Action → Bool
  | _, [] => true
  | table, action :: rest =>
      table.accepts action &&
        match registry.applyTo table action with
        | .ok next => registry.accepts next rest
        | .error _ => true

namespace TableColumn

/-- The column as the database has it while its table is altered in place. -/
def keyed (entry : TableColumn) : KeyedColumn :=
  if entry.origin = .added then KeyedColumn.added entry.column
  else KeyedColumn.created entry.column

theorem hom_keyed : Columns.Hom keyed where
  name_eq entry := by
    rw [keyed]
    split <;> rfl
  withName_eq name entry := by
    obtain ⟨column, params, origin⟩ := entry
    cases origin <;> rfl

/-- A column added in place is no key, so that only its uniqueness can be missing. -/
def Unkeyed (entry : TableColumn) : Prop :=
  entry.origin = .added → entry.column.isIdentity = false ∧ entry.column.primaryKey = false

theorem keyed_of_kept {entry : TableColumn} (hkept : entry.origin = .kept) :
    entry.keyed = KeyedColumn.created entry.column := by
  rw [keyed, hkept]
  rfl

theorem isSome_source? (entry : TableColumn) :
    entry.source?.isSome = true ↔ entry.origin ≠ .added := by
  rw [source?]
  cases entry.origin <;> simp

theorem unkeyed_of_kept {entry : TableColumn} (hkept : entry.origin = .kept) : entry.Unkeyed := by
  intro hadded
  rw [hkept] at hadded
  cases hadded

theorem origin_rename_eq_added (new : String) (entry : TableColumn) :
    (entry.rename new).origin = .added ↔ entry.origin = .added := by
  rw [rename]
  cases entry.origin <;> simp

theorem unkeyed_rename (new : String) (entry : TableColumn) (hunkeyed : entry.Unkeyed) :
    (entry.rename new).Unkeyed :=
  fun hadded => hunkeyed ((origin_rename_eq_added new entry).mp hadded)

theorem unkeyed_retarget (old new : String) (entry : TableColumn) (hunkeyed : entry.Unkeyed) :
    ({ entry with column := entry.column.retarget old new } : TableColumn).Unkeyed := by
  intro hadded
  have hkept := hunkeyed hadded
  rw [Column.retarget]
  split
  · exact hkept
  · exact hkept

/-- A column that is no key and refers to no table is bound by its uniqueness only. -/
theorem isBound_keyed {entry : TableColumn} (hidentity : entry.column.isIdentity = false)
    (hforeign : entry.column.isForeign = false) (hkey : entry.column.primaryKey = false) :
    entry.keyed.isBound = (entry.column.unique && entry.origin ≠ .added) := by
  have htarget : entry.column.target? = none := by
    rw [Column.target?, hforeign]
    rfl
  rw [keyed]
  split
  next hadded => simp [KeyedColumn.isBound, KeyedColumn.added, hidentity, htarget, hadded]
  next hheld => simp [KeyedColumn.isBound, KeyedColumn.created, hidentity, htarget, hkey, hheld]

theorem keyed_retarget (old new : String) (entry : TableColumn) :
    keyed { entry with column := entry.column.retarget old new } = entry.keyed := by
  rw [keyed, keyed, KeyedColumn.added_retarget, KeyedColumn.created_retarget]

end TableColumn

/-- A column whose dropping needs no rebuild is bound by its uniqueness only. -/
theorem Table.any_isBound {table : Table} {name : String} (hnodup : table.columnNames.Nodup)
    (hfree : ((table.column? name).any fun column =>
      column.isIdentity || column.isForeign || column.primaryKey) = false) :
    ((table.entries.map TableColumn.keyed).any fun column =>
        column.name = name && column.isBound) =
      table.entries.any fun entry =>
        entry.name = name && entry.column.unique && entry.origin ≠ .added := by
  rw [List.any_map, Bool.eq_iff_iff, List.any_eq_true, List.any_eq_true]
  refine exists_congr fun entry => and_congr_right fun hmem => ?_
  have hkept : entry.keyed.name = entry.name := TableColumn.hom_keyed.name_eq entry
  by_cases hname : entry.name = name
  · subst hname
    rw [column?, find?_of_mem hnodup hmem, Option.map_some, Option.any_some, Bool.or_eq_false_iff,
      Bool.or_eq_false_iff] at hfree
    rw [Function.comp_apply, TableColumn.isBound_keyed hfree.1.1 hfree.1.2 hfree.2, hkept,
      Bool.and_assoc]
  · simp [hkept, hname]

namespace Planner

variable {planner : Planner} {registry : Registry} {source : String}
  {table next target : Table} {action : Action} {actions : List Action}

/-- A statement that alters a table in place does to the columns of the database
what its action does to the entries of the table, if the database accepts it. -/
theorem alter_direct {statement : Statement} (hnodup : table.columnNames.Nodup)
    (hforces : planner.forcesRebuild table action = false)
    (hdirect : planner.direct source action = .ok statement)
    (happly : registry.applyTo table action = .ok next) :
    statement.alter (table.entries.map TableColumn.keyed) =
      if table.accepts action then some (next.entries.map TableColumn.keyed) else none := by
  cases writes_of_direct hdirect with
  | addColumn column params =>
      have hchanged := Registry.onEntries_of_applyTo rfl happly
      have hadd := TableColumn.hom_keyed.add_map ⟨column, params, .added⟩ table.entries
      change Columns.add (KeyedColumn.added column) (table.entries.map TableColumn.keyed) =
        ((Action.addColumn column params).onEntries table.entries).map
          (List.map TableColumn.keyed) at hadd
      rw [Statement.alter, hadd, hchanged, Table.accepts]
      cases column.demandsValue <;> rfl
  | dropColumn name =>
      have hchanged := Registry.onEntries_of_applyTo rfl happly
      have hdrop := TableColumn.hom_keyed.drop_map name table.entries
      change _ = ((Action.dropColumn name).onEntries table.entries).map
        (List.map TableColumn.keyed) at hdrop
      rw [forcesRebuild, Bool.or_eq_false_iff] at hforces
      rw [Statement.alter, Table.any_isBound hnodup hforces.2, hdrop, hchanged, Table.accepts]
      cases table.entries.any _ <;> rfl
  | renameColumn old new =>
      have hchanged := Registry.onEntries_of_applyTo rfl happly
      have hrename := TableColumn.hom_keyed.rename_map old new table.entries
      change _ = ((Action.renameColumn old new).onEntries table.entries).map
        (List.map TableColumn.keyed) at hrename
      rw [Statement.alter, hrename, hchanged]
      rfl
  | renameTable new =>
      rw [Registry.applyTo] at happly
      split at happly
      · cases happly
      · cases happly
        refine congrArg some ?_
        rw [Table.retarget, List.map_map]
        exact List.map_congr_left fun entry _ =>
          (TableColumn.keyed_retarget table.name new entry).symm

theorem alterAll_direct {statements : List Statement}
    (hplace : InPlace planner registry table actions target) (hnodup : table.columnNames.Nodup)
    (hdirect : actions.mapM (planner.direct source) = .ok statements) :
    Statement.alterAll statements (table.entries.map TableColumn.keyed) =
      if registry.accepts table actions then some (target.entries.map TableColumn.keyed)
      else none := by
  induction hplace generalizing statements with
  | nil table =>
      cases hdirect
      rfl
  | @cons table middle target action rest hforces hstep hlater ih =>
      obtain ⟨statement, others, hfirst, hrest, rfl⟩ := mapM_cons_eq_ok hdirect
      have hnext := ih (Registry.nodup_applyTo hnodup hstep) hrest
      rw [Statement.alterAll, List.foldlM_cons, alter_direct hnodup hforces hfirst hstep,
        Registry.accepts, hstep]
      cases table.accepts action with
      | false => rfl
      | true =>
          rw [Bool.true_and]
          exact hnext

theorem InPlace.unkeyed (hplace : InPlace planner registry table actions target)
    (hunkeyed : ∀ entry ∈ table.entries, entry.Unkeyed) :
    ∀ entry ∈ target.entries, entry.Unkeyed := by
  have hadded : ∀ (table : Table) (column : Column) (params : Option CopyParams),
      planner.forcesRebuild table (.addColumn column params) = false →
        ({ column, params, origin := .added } : TableColumn).Unkeyed := by
    intro table column params hforces _
    rw [forcesRebuild, Bool.or_eq_false_iff, Bool.or_eq_false_iff] at hforces
    exact hforces.1
  exact hplace.forall_entries hadded TableColumn.unkeyed_rename TableColumn.unkeyed_retarget
    hunkeyed

end Planner

namespace Table

variable {table : Table}

theorem names_filter {column : TableColumn → KeyedColumn} (hom : Columns.Hom column)
    (named : KeyedColumn → Bool) (entries : List TableColumn) :
    ((entries.map column).filter named).map KeyedColumn.name =
      (entries.filter fun entry => named (column entry)).map TableColumn.name := by
  rw [List.filter_map, List.map_map]
  exact List.map_congr_left fun entry _ => hom.name_eq entry

theorem hom_created : Columns.Hom fun entry : TableColumn => KeyedColumn.created entry.column :=
  ⟨fun _ => rfl, fun _ _ => rfl⟩

/-- The key in the database is that of the tracked table, since no column added in
place belongs to it. -/
theorem primaryKey_keyed (hunkeyed : ∀ entry ∈ table.entries, entry.Unkeyed) :
    KeyedColumn.primaryKey (table.entries.map TableColumn.keyed) =
      Statement.keyColumns table.columns := by
  have hflag : ∀ entry ∈ table.entries,
      entry.keyed.inPrimaryKey = (KeyedColumn.created entry.column).inPrimaryKey := by
    intro entry hmem
    rw [TableColumn.keyed]
    split
    next hadded => simp [KeyedColumn.added, KeyedColumn.created, hunkeyed entry hmem hadded]
    · rfl
  calc KeyedColumn.primaryKey (table.entries.map TableColumn.keyed)
      = (table.entries.filter fun entry => entry.keyed.inPrimaryKey).map TableColumn.name :=
        names_filter TableColumn.hom_keyed _ _
    _ = (table.entries.filter fun entry =>
          (KeyedColumn.created entry.column).inPrimaryKey).map TableColumn.name := by
        rw [List.filter_congr hflag]
    _ = KeyedColumn.primaryKey (table.columns.map KeyedColumn.created) := by
        rw [columns, List.map_map]
        exact (names_filter hom_created _ _).symm
    _ = Statement.keyColumns table.columns := KeyedColumn.primaryKey_created _

/-- Where no added column is to be unique either, the clauses are all there. -/
theorem keyed_eq_created (hunkeyed : ∀ entry ∈ table.entries, entry.Unkeyed)
    (hunique : ∀ entry ∈ table.entries, entry.column.unique = true → entry.origin ≠ .added) :
    table.entries.map TableColumn.keyed = table.columns.map KeyedColumn.created := by
  rw [columns, List.map_map]
  refine List.map_congr_left fun entry hmem => ?_
  rw [TableColumn.keyed]
  split
  next hadded =>
    obtain ⟨-, hkey⟩ := hunkeyed entry hmem hadded
    have hfree : entry.column.unique = false := by
      have hnever := hunique entry hmem
      simpa [hadded] using hnever
    simp [KeyedColumn.added, KeyedColumn.created, hkey, hfree]
  · rfl

/-- Its uniqueness is that of the tracked table unless a column that is to be unique
was added. -/
theorem unique_keyed_iff (hnodup : table.columnNames.Nodup) :
    KeyedColumn.unique (table.entries.map TableColumn.keyed) =
        Statement.uniqueColumns table.columns ↔
      ∀ entry ∈ table.entries, entry.column.unique = true → entry.origin ≠ .added := by
  have hheld : KeyedColumn.unique (table.entries.map TableColumn.keyed) =
      (table.entries.filter fun entry => entry.keyed.inUnique).map TableColumn.name :=
    names_filter TableColumn.hom_keyed _ _
  have htracked : Statement.uniqueColumns table.columns =
      (table.entries.filter fun entry => entry.column.unique).map TableColumn.name := by
    rw [← KeyedColumn.unique_created, columns, List.map_map]
    exact names_filter hom_created _ _
  have hflag : ∀ entry : TableColumn,
      entry.keyed.inUnique = (entry.column.unique && entry.origin ≠ .added) := by
    intro entry
    rw [TableColumn.keyed]
    split
    next hadded => simp [KeyedColumn.added, hadded]
    next hheld => simp [KeyedColumn.created, hheld]
  rw [hheld, htracked]
  constructor
  · intro hsame entry hmem hunique hadded
    have htarget : entry.name ∈
        (table.entries.filter fun entry => entry.column.unique).map TableColumn.name :=
      List.mem_map_of_mem (List.mem_filter.mpr ⟨hmem, hunique⟩)
    rw [← hsame] at htarget
    obtain ⟨other, hother, hname⟩ := List.mem_map.mp htarget
    obtain ⟨hotherMem, hotherUnique⟩ := List.mem_filter.mp hother
    have hsameEntry := List.inj_on_of_nodup_map hnodup hotherMem hmem hname
    rw [hsameEntry, hflag, hadded] at hotherUnique
    simp at hotherUnique
  · intro hheld
    have hcongr : ∀ entry ∈ table.entries, entry.keyed.inUnique = entry.column.unique := by
      intro entry hmem
      have hnever := hheld entry hmem
      rw [hflag]
      cases hunique : entry.column.unique with
      | false => rfl
      | true => simpa using hnever hunique
    rw [List.filter_congr hcongr]

end Table

/-! ## In a whole database -/

namespace Planner

variable {planner : Planner} {source : String} {database : Catalog KeyedColumn}
  {columns : List KeyedColumn}

/-- A statement that changes a column of a table in place changes that table only. -/
theorem execKeyed_direct {action : Action} {statement : Statement}
    (hcolumn : action.isColumnChange = true)
    (hdirect : planner.direct source action = .ok statement)
    (hdatabase : database source = some columns) :
    statement.execKeyed database =
      (statement.alter columns).map fun altered => database.set source (some altered) := by
  have halter : database.alter source statement.alter =
      (statement.alter columns).map fun altered => database.set source (some altered) := by
    rw [Catalog.alter, hdatabase, Option.bind_some]
  rw [← halter]
  cases writes_of_direct hdirect with
  | renameTable new => cases hcolumn
  | _ => rfl

/-- Altering a table in place changes its columns and at last its name. -/
theorem execKeyedAll_direct {changes : List Action} {new : Option String}
    {statements : List Statement} (hchanges : ∀ action ∈ changes, action.isColumnChange = true)
    (hdirect : (changes ++ (new.map Action.renameTable).toList).mapM (planner.direct source) =
      .ok statements)
    (hdatabase : database source = some columns) (hfree : ∀ name ∈ new, database name = none) :
    Statement.execKeyedAll statements database =
      (Statement.alterAll statements columns).map fun altered =>
        (database.set source none).set (new.getD source) (some altered) := by
  induction changes generalizing statements database columns with
  | nil =>
      cases new with
      | none =>
          cases hdirect
          have hkept : (database.set source none).set source (some columns) = database := by
            rw [Catalog.set_set, Catalog.set_of_eq hdatabase]
          exact (congrArg some hkept).symm
      | some new =>
          obtain ⟨statement, others, hrename, hnone, rfl⟩ := mapM_cons_eq_ok hdirect
          cases hnone
          cases writes_of_direct hrename
          rw [Statement.execKeyedAll_cons, Statement.execKeyed,
            Catalog.move_of_eq hdatabase (hfree new rfl)]
          rfl
  | cons first rest ih =>
      rw [List.forall_mem_cons] at hchanges
      obtain ⟨statement, others, hfirst, hrest, rfl⟩ := mapM_cons_eq_ok hdirect
      rw [Statement.execKeyedAll_cons, execKeyed_direct hchanges.1 hfirst hdatabase,
        Statement.alterAll, List.foldlM_cons, Option.bind_map, Option.bind_eq_bind,
        Option.map_bind]
      congr 1
      funext altered
      have hfree' : ∀ name ∈ new, database.set source (some altered) name = none := by
        intro name hname
        rw [Catalog.set_of_ne, hfree name hname]
        rintro rfl
        rw [hfree name hname] at hdatabase
        cases hdatabase
      rw [Function.comp_apply, ih hchanges.2 hrest (Catalog.set_self ..) hfree', Catalog.set_set]
      rfl

end Planner

namespace Registry

/-- Whether the clauses of a table that is altered in place are afterwards those that
the registry tracks. -/
def keepsClauses (registry : Registry) (stored : Table) (actions : List Action)
    (target : Table) : Bool :=
  registry.accepts stored actions &&
    target.columns.all fun column =>
      !column.unique || (Action.originOf actions.reverse column.name).isSome

end Registry

/-- An alteration is a rebuild, or its statements are admissible and leave the clauses
that the registry tracks. -/
def SegmentCheck.keepsClauses : SegmentCheck :=
  ofAlteration fun planner registry _ stored actions target =>
    planner.needsRebuild registry stored actions || registry.keepsClauses stored actions target

/-- A segment finds the scratch name of its rebuild free and keeps the clauses. -/
def SegmentCheck.keyed : SegmentCheck := fun planner registry table segment =>
  planner.scratchFree registry table segment && keepsClauses planner registry table segment

namespace Registry

variable {registry : Registry} {stored target : Table} {actions : List Action}

/-- No column that is to be unique was added, seen from the actions and from the entries
that they leave. -/
theorem keepsClauses_iff (hsettled : stored.Settled) (halters : Segment.Alters actions)
    (happly : registry.applyAll stored actions = .ok target) :
    registry.keepsClauses stored actions target = true ↔
      registry.accepts stored actions = true ∧
        ∀ entry ∈ target.entries, entry.column.unique = true → entry.origin ≠ .added := by
  obtain ⟨-, changes, new, rfl, hchanges⟩ := halters
  have htraced := Table.traced_applyAll hsettled.nodup hsettled.kept hchanges happly
  rw [keepsClauses, Bool.and_eq_true, Table.columns, List.all_map, List.all_eq_true]
  refine and_congr_right fun _ => forall₂_congr fun entry hmem => ?_
  have hsource : entry.source? = Action.originOf _ entry.column.name :=
    htraced.source_eq entry hmem
  rw [Function.comp_apply, ← hsource, ← TableColumn.isSome_source?]
  cases entry.column.unique <;> simp

theorem keyed_eq_none {name : String} (hfree : registry.contains name = false) :
    registry.keyed name = none := by
  rw [keyed, (find?_eq_none_iff registry name).mpr hfree, Option.map_none]

theorem keyed_of_settled {source : String} (hsettled : stored.Settled)
    (hfind : registry.find? source = some stored) :
    registry.keyed source = some (stored.entries.map TableColumn.keyed) := by
  rw [keyed, hfind, Option.map_some, Table.columns, List.map_map]
  refine congrArg some (List.map_congr_left fun entry hmem => ?_)
  exact (TableColumn.keyed_of_kept (hsettled.kept entry hmem)).symm

end Registry

namespace Planner

variable {planner : Planner} {registry next : Registry} {source : String} {stored target : Table}
  {actions : List Action} {batch : BatchPlan}

/-- What altering a settled table in place makes of the database of the registry. -/
theorem execKeyedAll_inPlace {statements : List Statement} (hsettled : stored.Settled)
    (halters : Segment.Alters actions) (hfind : registry.find? source = some stored)
    (happly : registry.applyAll stored actions = .ok target)
    (hdirect : planner.needsRebuild registry stored actions = false)
    (hstatements : actions.mapM (planner.direct source) = .ok statements) :
    Statement.execKeyedAll statements registry.keyed =
      if registry.accepts stored actions then
        some ((registry.keyed.set source none).set target.name
          (some (target.entries.map TableColumn.keyed)))
      else none := by
  have hplace := inPlace_of_needsRebuild happly hdirect
  obtain ⟨-, changes, new, rfl, hchanges⟩ := halters
  obtain ⟨hname, hfree⟩ := Registry.name_of_applyAll_renaming hchanges hfind happly
  have hfreed : ∀ name ∈ new, registry.keyed name = none :=
    fun name hmem => Registry.keyed_eq_none (hfree name hmem)
  rw [execKeyedAll_direct hchanges hstatements (Registry.keyed_of_settled hsettled hfind) hfreed,
    alterAll_direct hplace hsettled.nodup hstatements, hname]
  split <;> rfl

theorem unkeyed_of_settled (hsettled : stored.Settled)
    (happly : registry.applyAll stored actions = .ok target)
    (hdirect : planner.needsRebuild registry stored actions = false) :
    ∀ entry ∈ target.entries, entry.Unkeyed :=
  (inPlace_of_needsRebuild happly hdirect).unkeyed fun entry hmem =>
    TableColumn.unkeyed_of_kept (hsettled.kept entry hmem)

/-- An alteration that keeps the clauses takes the database of the registry to that of
the next registry. -/
theorem execKeyedAll_planAlteration (hsettled : registry.Settled)
    (halters : Segment.Alters actions)
    (hcheck : SegmentCheck.keyed planner registry source (.alter actions) = true)
    (hplan : planner.planAlteration registry source actions = .ok (next, batch)) :
    Statement.execKeyedAll batch.statements registry.keyed = some next.keyed := by
  obtain ⟨stored, target, hfind, happly, -, hplace, hbatch⟩ := planAlteration_cases hplan
  rw [SegmentCheck.keyed, Bool.and_eq_true, SegmentCheck.keepsClauses,
    SegmentCheck.ofAlteration_alter _ hfind happly] at hcheck
  obtain ⟨hscratch, hkeeps⟩ := hcheck
  rw [← next.seen_keyed, hplace]
  rcases hbatch with ⟨hrebuild, rfl⟩ | ⟨hdirect, statements, hstatements, rfl⟩
  · have hunused := contains_of_scratchFree hfind happly hrebuild hscratch
    have hexec := KeyedColumn.semantics.execAll_planned halters hfind happly hunused
    rw [KeyedColumn.semantics.seen_rebuilt KeyedColumn.created_retarget, registry.seen_keyed]
      at hexec
    exact hexec
  · have hstored := hsettled.find? hfind
    rw [hdirect, Bool.false_or, Registry.keepsClauses_iff hstored halters happly] at hkeeps
    rw [execKeyedAll_inPlace hstored halters hfind happly hdirect hstatements, if_pos hkeeps.1,
      KeyedColumn.semantics.seen_place KeyedColumn.created_retarget, registry.seen_keyed,
      Table.keyed_eq_created (unkeyed_of_settled hstored happly hdirect) hkeeps.2]
    rfl

end Planner

namespace Registry

/-- Executing the statements from an empty database gives its tables the clauses that
the registry tracks. -/
structure Keyed (registry : Registry) (statements : List Statement) : Prop where
  settled : registry.Settled
  keyed_eq : Statement.execKeyedAll statements Catalog.empty = some registry.keyed

theorem keeps_keyed : SegmentCheck.keyed.Keeps Keyed := by
  intro planner registry next table segment batch statements hwell hcheck hplan hkeyed
  refine ⟨Planner.settled_planSegment hkeyed.settled hplan, ?_⟩
  rw [Statement.execKeyedAll_append, hkeyed.keyed_eq, Option.bind_some]
  cases segment with
  | alter actions =>
      exact Planner.execKeyedAll_planAlteration hkeyed.settled hwell hcheck hplan
  | create columns =>
      have hexec := KeyedColumn.semantics.execAll_planCreation hplan
      rwa [registry.seen_keyed, next.seen_keyed] at hexec
  | drop =>
      have hexec := KeyedColumn.semantics.execAll_planDrop hplan
      rwa [registry.seen_keyed, next.seen_keyed] at hexec

end Registry

namespace Compilation

/-- After a run whose alterations keep the clauses, the database has the keys and the
uniqueness that the registry tracks.  Whatever was run before, an alteration that is
written in place is admissible on such a database, and leaves the key and the uniqueness
that the registry tracks next, exactly if no added column demands a value, no dropped one
was created unique and none added is to be unique. -/
theorem execKeyedAll_run (settings : Settings) (commands : List Command) :
    (SegmentCheck.keyed.onRun (new settings) commands = true →
      Statement.execKeyedAll ((new settings).run commands).statements Catalog.empty =
        some ((new settings).run commands).registry.keyed) ∧
    ∀ (planner : Planner) (source : String) (stored : Table) (actions : List Action)
      (next : Registry) (batch : BatchPlan),
      ((new settings).run commands).registry.find? source = some stored →
      Segment.Alters actions →
      planner.planAlteration ((new settings).run commands).registry source actions =
        .ok (next, batch) →
      batch.rebuilds = 0 →
      ∃ target, next.find? batch.table = some target ∧
        ((∃ after columns,
            Statement.execKeyedAll batch.statements
                ((new settings).run commands).registry.keyed = some after ∧
              after batch.table = some columns ∧
              KeyedColumn.primaryKey columns = Statement.keyColumns target.columns ∧
              KeyedColumn.unique columns = Statement.uniqueColumns target.columns) ↔
          ((new settings).run commands).registry.keepsClauses stored actions target = true) := by
  have hempty : Registry.empty.Settled := fun table hmem => absurd hmem List.not_mem_nil
  refine ⟨fun hcheck => (Registry.keeps_keyed.run hcheck ⟨hempty, rfl⟩).keyed_eq, ?_⟩
  intro planner source stored actions next batch hfind halters hplan hrebuilds
  generalize hreached : ((new settings).run commands).registry = registry at hfind hplan ⊢
  have hsettled : stored.Settled := by
    rw [← hreached] at hfind
    exact (settled_run settings commands).find? hfind
  obtain ⟨stored', target, hfind', happly, houtcome⟩ := Planner.planAlteration_ok hplan
  cases hfind.symm.trans hfind'
  rcases houtcome with ⟨-, -, rfl⟩ | ⟨hdirect, hreplace, statements, hstatements, rfl⟩
  · cases hrebuilds
  have hexec := Planner.execKeyedAll_inPlace hsettled halters hfind happly hdirect hstatements
  have hkey := Table.primaryKey_keyed (Planner.unkeyed_of_settled hsettled happly hdirect)
  have hunique := Table.unique_keyed_iff (Registry.nodup_applyAll hsettled.nodup happly)
  have hkeeps := Registry.keepsClauses_iff hsettled halters happly
  refine ⟨target.settle, Registry.find?_of_replace hreplace, ?_⟩
  rw [Registry.keepsClauses, Table.columns_settle, ← Registry.keepsClauses, hkeeps, ← hunique,
    hexec]
  cases registry.accepts stored actions with
  | false => simp
  | true => simp [hkey]

/-- A table with a unique column and a plain one. -/
def articles : Table where
  name := "articles"
  entries := [{ column := { name := "code", type := .text, unique := true } },
    { column := { name := "title", type := .text } }]

/-- A run that creates it and adds the plain column in place. -/
def published : List Command :=
  [.start,
    .enqueue "articles" (.createTable [{ name := "code", type := .text, unique := true }]),
    .flush,
    .enqueue "articles" (.addColumn { name := "title", type := .text } none),
    .flush]

/-- An engine that can alter everything in place is given a statement that drops the
unique column, which is not admissible. -/
theorem not_keyed_articles :
    Statement.execKeyedAll ((new {}).run published).statements Catalog.empty =
        some ((new {}).run published).registry.keyed ∧
      ∃ next batch target,
        Planner.planAlteration ⟨"sqlite", ⟨true, true, true⟩, false⟩
            ((new {}).run published).registry "articles" [.dropColumn "code"] =
              .ok (next, batch) ∧
          batch = ⟨"articles", [.dropColumn "articles" "code"], 0⟩ ∧
          next.find? batch.table = some target ∧
          ¬∃ after columns,
            Statement.execKeyedAll batch.statements ((new {}).run published).registry.keyed =
                some after ∧
              after batch.table = some columns ∧
              KeyedColumn.primaryKey columns = Statement.keyColumns target.columns ∧
              KeyedColumn.unique columns = Statement.uniqueColumns target.columns := by
  have hresult : (Planner.planAlteration ⟨"sqlite", ⟨true, true, true⟩, false⟩
      ((new {}).run published).registry "articles" [.dropColumn "code"]).toOption.map Prod.snd =
        some ⟨"articles", [.dropColumn "articles" "code"], 0⟩ := by
    decide
  obtain ⟨⟨next, batch⟩, hplanned, hbatch⟩ := Option.map_eq_some_iff.mp hresult
  have hplan := toOption_eq_some_iff.mp hplanned
  have hfind : ((new {}).run published).registry.find? "articles" = some articles := by decide
  have halters : Segment.Alters [.dropColumn "code"] := Segment.alters_single rfl
  have hrefused : ((new {}).run published).registry.accepts articles [.dropColumn "code"] =
      false := by
    decide
  obtain ⟨hexec, halteration⟩ := execKeyedAll_run {} published
  obtain ⟨target, htarget, hiff⟩ := halteration _ "articles" articles _ next batch hfind halters
    hplan (congrArg BatchPlan.rebuilds hbatch)
  refine ⟨hexec (by decide), next, batch, target, hplan, hbatch, htarget, ?_⟩
  rw [hiff, Registry.keepsClauses, hrefused, Bool.false_and]
  exact Bool.false_ne_true

end Compilation

end SchemaMigration
