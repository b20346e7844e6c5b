import SchemaMigration.Proofs.ColumnNotes

/-!
# Fallbacks over copied values

A fallback among the parameters of a column stands in place of NULL in what a rebuild
copies into it.  It also decides what is read: a renamed column that is to be filled from
another reads that one with a fallback, and its own data without.  In every other case a
fallback changes nothing but NULL.
-/

namespace SchemaMigration

namespace CopyExpression

/-- The expression with a fallback in place of NULL. -/
def fallingBack (fallback : Literal) : CopyExpression → CopyExpression
  | column name | coalesce name _ => coalesce name fallback
  | literal value => literal value

end CopyExpression

namespace TableColumn

/-- The entry with another fallback, or none, among its parameters. -/
def withFallback (fallback : Option Literal) (entry : TableColumn) : TableColumn :=
  { entry with params := some { entry.params.getD {} with coalesce := fallback } }

theorem params_withFallback (fallback : Option Literal) (entry : TableColumn) :
    (entry.withFallback fallback).params = some ⟨entry.fillFrom?, fallback⟩ := by
  rw [withFallback, fillFrom?]
  cases entry.params <;> rfl

variable {entry : TableColumn} {origin : String}

theorem isAdded_of_source? (hsource : entry.source? = some origin) : entry.isAdded = false := by
  rw [isAdded, decide_eq_false_iff_not]
  intro hadded
  rw [source?, hadded] at hsource
  cases hsource

/-- With a fallback, a column that has data reads what is to fill it before its own. -/
theorem copyExpression?_withFallback (hsource : entry.source? = some origin)
    (fallback : Literal) :
    (entry.withFallback (some fallback)).copyExpression? =
      some (.coalesce (entry.fillFrom?.getD origin) fallback) := by
  have hfill : (entry.withFallback (some fallback)).fillFrom? = entry.fillFrom? := by
    rw [fillFrom?, params_withFallback, Option.bind_some]
  have hcoalesce : (entry.withFallback (some fallback)).coalesce? = some fallback := by
    rw [coalesce?, params_withFallback, Option.bind_some]
  have horigin : (entry.withFallback (some fallback)).origin = entry.origin := rfl
  have hname : (entry.withFallback (some fallback)).sourceName = entry.sourceName := rfl
  rw [copyExpression?, hfill, hcoalesce, horigin, hname, sourceName]
  rw [source?] at hsource
  cases hkind : entry.origin <;> rw [hkind] at hsource <;> cases hsource <;> rfl

/-- Without a fallback, a renamed column reads its own data whatever is to fill it. -/
theorem copyExpression?_withoutFallback (hsource : entry.source? = some origin) :
    (entry.withFallback none).copyExpression? =
      some (.column (if entry.renamedFrom?.isSome then origin
        else entry.fillFrom?.getD origin)) := by
  have hfill : (entry.withFallback none).fillFrom? = entry.fillFrom? := by
    rw [fillFrom?, params_withFallback, Option.bind_some]
  have hcoalesce : (entry.withFallback none).coalesce? = none := by
    rw [coalesce?, params_withFallback, Option.bind_some]
  have horigin : (entry.withFallback none).origin = entry.origin := rfl
  have hname : (entry.withFallback none).name = entry.name := rfl
  rw [copyExpression?, hfill, hcoalesce, horigin, hname, renamedFrom?]
  rw [source?] at hsource
  cases hkind : entry.origin <;> rw [hkind] at hsource <;> cases hsource <;> rfl

end TableColumn

namespace Action

/-- Whether a stored column was renamed by the actions, which are listed from the last to
the first, by its name after them. -/
def isRenamed : List Action → String → Bool
  | [], _ => false
  | addColumn column _ :: earlier, name => column.name != name && isRenamed earlier name
  | renameColumn _ new :: earlier, name => new == name || isRenamed earlier name
  | createTable _ :: earlier, name | dropTable :: earlier, name
  | renameTable _ :: earlier, name | changeColumn _ _ _ :: earlier, name
  | dropColumn _ :: earlier, name => isRenamed earlier name

end Action

namespace Table

/-- The entries of a table that were not added record whether they were renamed by the
actions. -/
def RecordsRenames (table : Table) (actions : List Action) : Prop :=
  ∀ name entry, table.find? name = some entry → entry.isAdded = false →
    entry.renamedFrom?.isSome = Action.isRenamed actions name

variable {table next : Table} {actions : List Action} {registry : Registry}

theorem recordsRenames_kept (hkept : ∀ entry ∈ table.entries, entry.origin = .kept) :
    table.RecordsRenames [] := by
  intro name entry hfind _
  rw [TableColumn.renamedFrom?, hkept entry (List.mem_of_find?_eq_some hfind)]
  rfl

/-- Each change of a column keeps the record. -/
theorem recordsRenames_applyTo (hrecords : table.RecordsRenames actions)
    (hnodup : table.columnNames.Nodup) {action : Action} (hcolumn : action.isColumnChange = true)
    (happly : registry.applyTo table action = .ok next) :
    next.RecordsRenames (action :: actions) := by
  intro name entry hfound hstored
  cases action with
  | addColumn column params =>
      obtain ⟨-, hfind⟩ := find?_addColumn happly
      rw [hfind] at hfound
      split at hfound
      · cases hfound
        cases hstored
      next hother =>
        rw [Action.isRenamed, hrecords name entry hfound hstored, bne_iff_ne.mpr (Ne.symm hother),
          Bool.true_and]
  | changeColumn changed definition params =>
      rw [(find?_changeColumn hnodup happly name).2] at hfound
      obtain ⟨before, hbefore, rfl⟩ := Option.map_eq_some_iff.mp hfound
      rw [Action.isRenamed, ← hrecords name before hbefore]
      · split <;> rfl
      · split at hstored <;> exact hstored
  | dropColumn dropped =>
      rw [find?_dropColumn hnodup happly] at hfound
      split at hfound
      · cases hfound
      · exact hrecords name entry hfound hstored
  | renameColumn old new =>
      obtain ⟨moved, hmoved, -, hfind⟩ := find?_renameColumn hnodup happly
      rw [hfind] at hfound
      split at hfound
      next hnew =>
        cases hfound
        rw [TableColumn.isAdded_rename] at hstored
        rw [Action.isRenamed, TableColumn.renamedFrom?_rename, hstored, hnew, beq_self_eq_true]
        rfl
      next hnew =>
        split at hfound
        · cases hfound
        · rw [Action.isRenamed, hrecords name entry hfound hstored,
            beq_eq_false_iff_ne.mpr (Ne.symm hnew), Bool.false_or]
  | createTable columns => cases hcolumn
  | dropTable => cases hcolumn
  | renameTable new => cases hcolumn

theorem recordsRenames_applyAll {changes : List Action}
    (hrecords : table.RecordsRenames actions) (hnodup : table.columnNames.Nodup)
    (hchanges : ∀ action ∈ changes, action.isColumnChange = true)
    (happly : registry.applyAll table changes = .ok next) :
    next.RecordsRenames (changes.reverse ++ actions) := by
  induction changes generalizing actions table with
  | nil =>
      cases happly
      exact hrecords
  | cons first rest ih =>
      rw [List.forall_mem_cons] at hchanges
      obtain ⟨middle, hfirst, hrest⟩ := bind_eq_ok_iff.mp happly
      rw [List.reverse_cons, List.append_assoc]
      exact ih (recordsRenames_applyTo hrecords hnodup hchanges.1 hfirst)
        (Registry.nodup_applyTo hnodup hfirst) hchanges.2 hrest

/-! ## The fallback of one column -/

/-- The table with another fallback, or none, among the parameters of a column. -/
def setFallback (table : Table) (column : String) (fallback : Option Literal) : Table :=
  table.modify column (·.withFallback fallback)

theorem eq_of_name (hdistinct : table.columnNames.Nodup) {entry other : TableColumn}
    (hmem : entry ∈ table.entries) (hother : other ∈ table.entries)
    (hname : other.name = entry.name) : other = entry := by
  have hfind := find?_of_mem hdistinct hother
  rw [hname, find?_of_mem hdistinct hmem] at hfind
  exact (Option.some.inj hfind).symm

variable {entry : TableColumn}

/-- A change of the column's parameters sets its fallback. -/
theorem changeColumn_setFallback (hdistinct : table.columnNames.Nodup)
    (hmem : entry ∈ table.entries) (fallback : Option Literal) :
    table.changeColumn entry.name none (some ⟨entry.fillFrom?, fallback⟩) =
      .ok (table.setFallback entry.name fallback) := by
  rw [changeColumn, find?_of_mem hdistinct hmem, setFallback, modify_eq_map hdistinct,
    modify_eq_map hdistinct]
  simp only
  congr 2
  refine List.map_congr_left fun other hother => ?_
  split
  next hname =>
    rw [eq_of_name hdistinct hmem hother hname, TableColumn.withFallback]
    congr 1
    exact (entry.params_withFallback fallback).symm
  · rfl

theorem copies_setFallback (hdistinct : table.columnNames.Nodup) (column : String)
    (fallback : Option Literal) :
    (table.setFallback column fallback).copies = table.entries.filterMap fun entry =>
      (if entry.name = column then entry.withFallback fallback
        else entry).copyExpression?.map fun expression => (entry.name, expression) := by
  rw [copies, setFallback, modify_eq_map hdistinct, List.filterMap_map]
  refine List.filterMap_congr fun entry _ => ?_
  rw [Function.comp_apply]
  split <;> rfl

/-- What is copied into a column with another fallback is what its entry copies then. -/
theorem mem_copies_setFallback (hdistinct : table.columnNames.Nodup)
    (hmem : entry ∈ table.entries) {fallback : Option Literal} {expression : CopyExpression} :
    (entry.name, expression) ∈ (table.setFallback entry.name fallback).copies ↔
      (entry.withFallback fallback).copyExpression? = some expression := by
  rw [copies_setFallback hdistinct, List.mem_filterMap]
  constructor
  · rintro ⟨other, hother, hcopy⟩
    obtain ⟨found, hfound, hpair⟩ := Option.map_eq_some_iff.mp hcopy
    obtain ⟨hname, rfl⟩ := Prod.mk.injEq .. ▸ hpair
    rwa [if_pos hname, eq_of_name hdistinct hmem hother hname] at hfound
  · intro hcopy
    refine ⟨entry, hmem, ?_⟩
    rw [if_pos rfl, hcopy]
    rfl

/-- A copy with a fallback over what it reads, if it is for the given column. -/
def wrapCopy (column : String) (fallback : Literal) (copy : String × CopyExpression) :
    String × CopyExpression :=
  if copy.1 = column then (copy.1, copy.2.fallingBack fallback) else copy

/-- A fallback wraps and does nothing else exactly if the same column is read without it. -/
theorem copies_eq_map_wrapCopy_iff (hdistinct : table.columnNames.Nodup)
    (hmem : entry ∈ table.entries) {source other : String} {fallback : Literal}
    (hwith : (entry.withFallback (some fallback)).copyExpression? =
      some (.coalesce source fallback))
    (hwithout : (entry.withFallback none).copyExpression? = some (.column other)) :
    (table.setFallback entry.name (some fallback)).copies =
        (table.setFallback entry.name none).copies.map (wrapCopy entry.name fallback) ↔
      source = other := by
  constructor
  · intro hcopies
    have hread := (mem_copies_setFallback hdistinct hmem).mpr hwith
    rw [hcopies] at hread
    obtain ⟨⟨name, expression⟩, hcopy, hwrapped⟩ := List.mem_map.mp hread
    have hname : name = entry.name := by
      rw [wrapCopy] at hwrapped
      split at hwrapped
      · assumption
      · exact congrArg Prod.fst hwrapped
    subst hname
    have hexpression := (mem_copies_setFallback hdistinct hmem).mp hcopy
    rw [hwithout] at hexpression
    cases hexpression
    rw [wrapCopy, if_pos rfl] at hwrapped
    cases hwrapped
    rfl
  · rintro rfl
    rw [copies_setFallback hdistinct, copies_setFallback hdistinct, List.map_filterMap]
    refine List.filterMap_congr fun other hother => ?_
    rw [Option.map_map]
    by_cases hname : other.name = entry.name
    · rw [if_pos hname, if_pos hname, eq_of_name hdistinct hmem hother hname, hwith, hwithout,
        Option.map_some, Option.map_some, Function.comp_apply, wrapCopy, if_pos rfl]
      rfl
    · rw [if_neg hname, if_neg hname]
      refine Option.map_congr fun expression _ => ?_
      rw [Function.comp_apply, wrapCopy, if_neg hname]

/-- After any changes to the columns of a stored table, a column that was not added reads
with a fallback what is to fill it, or else the column that it began as.  Without one it
reads the same, unless it was renamed and is to be filled from another: then it reads the
column that it began as. -/
theorem copies_setFallback_iff {stored target : Table} {name origin : String}
    (hdistinct : stored.columnNames.Nodup)
    (hkept : ∀ entry ∈ stored.entries, entry.origin = .kept)
    (hchanges : ∀ action ∈ actions, action.isColumnChange = true)
    (happly : registry.applyAll stored actions = .ok target)
    (hname : name ∈ target.columnNames)
    (horigin : Action.originOf actions.reverse name = some origin) (fallback : Literal) :
    let filled := Action.fillFromOf stored actions.reverse name
    let renamed := Action.isRenamed actions.reverse name
    (∀ other, target.changeColumn name none (some ⟨filled, other⟩) =
        .ok (target.setFallback name other)) ∧
      (∀ expression, (name, expression) ∈ (target.setFallback name (some fallback)).copies ↔
        expression = .coalesce (filled.getD origin) fallback) ∧
      (∀ expression, (name, expression) ∈ (target.setFallback name none).copies ↔
        expression = .column (if renamed then origin else filled.getD origin)) ∧
      ((target.setFallback name (some fallback)).copies =
          (target.setFallback name none).copies.map (wrapCopy name fallback) ↔
        ¬(renamed = true ∧ ∃ source, filled = some source ∧ source ≠ origin)) := by
  obtain ⟨entry, hmem, rfl⟩ := List.mem_map.mp hname
  have hnodup := Registry.nodup_applyAll hdistinct happly
  have htraced := traced_of_changes hdistinct hkept hchanges happly
  have hsource : entry.source? = some origin := (htraced.source_eq entry hmem).trans horigin
  have hrecords := recordsRenames_applyAll (recordsRenames_kept hkept) hdistinct hchanges happly
  rw [List.append_nil] at hrecords
  rw [← hrecords entry.name entry (find?_of_mem hnodup hmem)
      (TableColumn.isAdded_of_source? hsource), ← htraced.fillFrom?_eq hmem]
  have hwith := TableColumn.copyExpression?_withFallback hsource fallback
  have hwithout := TableColumn.copyExpression?_withoutFallback hsource
  refine ⟨changeColumn_setFallback hnodup hmem, fun expression => ?_, fun expression => ?_, ?_⟩
  · rw [mem_copies_setFallback hnodup hmem, hwith, Option.some.injEq, eq_comm]
  · rw [mem_copies_setFallback hnodup hmem, hwithout, Option.some.injEq, eq_comm]
  · rw [copies_eq_map_wrapCopy_iff hnodup hmem hwith hwithout]
    cases entry.renamedFrom?.isSome <;> cases entry.fillFrom? <;> simp

/-- A stored table of two columns. -/
def people : Table :=
  ⟨"people", [{ column := { name := "name", type := .text } },
    { column := { name := "nick", type := .text } }]⟩

/-- Renames one column and fills it from the other. -/
def labelling : List Action :=
  [.renameColumn "name" "label", .changeColumn "label" none (some { fillFrom := some "nick" })]

/-- A fallback turns the renamed column from its own data to the other's, while over the
other it only wraps. -/
theorem copies_setFallback_labelling :
    ∃ target, Registry.empty.applyAll people labelling = .ok target ∧
      ("label", .coalesce "nick" (.text "unnamed")) ∈
        (target.setFallback "label" (some (.text "unnamed"))).copies ∧
      ("label", .column "name") ∈ (target.setFallback "label" none).copies ∧
      (target.setFallback "nick" (some (.text "unnamed"))).copies =
        (target.setFallback "nick" none).copies.map (wrapCopy "nick" (.text "unnamed")) := by
  obtain ⟨target, happly, hnames⟩ : ∃ target,
      Registry.empty.applyAll people labelling = .ok target ∧
        target.columnNames = ["label", "nick"] := ⟨_, rfl, by decide⟩
  have hdistinct : people.columnNames.Nodup := by decide
  have hkept : ∀ entry ∈ people.entries, entry.origin = .kept := by decide
  have hchanges : ∀ action ∈ labelling, action.isColumnChange = true := by decide
  have hlabel : "label" ∈ target.columnNames := by simp [hnames]
  have hnick : "nick" ∈ target.columnNames := by simp [hnames]
  obtain ⟨-, hwith, hwithout, -⟩ := copies_setFallback_iff hdistinct hkept hchanges happly
    hlabel (by decide : _ = some "name") (.text "unnamed")
  obtain ⟨-, -, -, hwraps⟩ := copies_setFallback_iff hdistinct hkept hchanges happly
    hnick (by decide : _ = some "nick") (.text "unnamed")
  exact ⟨target, happly, (hwith _).mpr (by decide), (hwithout _).mpr (by decide),
    hwraps.mpr (by decide)⟩

/-- A fallback does not only wrap what a renamed column reads. -/
theorem copies_setFallback_labelling_ne :
    ∃ target, Registry.empty.applyAll people labelling = .ok target ∧
      "label" ∈ target.columnNames ∧
      Action.originOf labelling.reverse "label" = some "name" ∧
      (target.setFallback "label" (some (.text "unnamed"))).copies ≠
        (target.setFallback "label" none).copies.map (wrapCopy "label" (.text "unnamed")) :=
  ⟨_, rfl, by decide, by decide, by decide⟩

end Table

end SchemaMigration
