import SchemaMigration.Proofs.Alteration

/-!
# Where the rows of a rebuilt table come from

While actions are resolved on a copy of a stored table, each column records
where its data lies.  The same can be found out afterwards, by following the
name of a column back through the actions, and the two agree: a rebuild copies
into each column the data of the stored column that it began as.
-/

namespace SchemaMigration

namespace Action

/-- The stored column that a column began as, by its name after the actions,
which are listed from the last to the first; none when it was added. -/
def originOf : List Action → String → Option String
  | [], name => some name
  | addColumn column _ :: earlier, name =>
      if column.name = name then none else originOf earlier name
  | renameColumn old new :: earlier, name =>
      originOf earlier (if new = name then old else name)
  | createTable _ :: earlier, name | dropTable :: earlier, name
  | renameTable _ :: earlier, name | changeColumn _ _ _ :: earlier, name
  | dropColumn _ :: earlier, name => originOf earlier name

/-- The copy parameters that a column has after the actions, which are listed
from the last to the first. -/
def paramsOf (stored : Table) : List Action → String → Option CopyParams
  | [], name => (stored.find? name).bind (·.params)
  | addColumn column params :: earlier, name =>
      if column.name = name then params else paramsOf stored earlier name
  | changeColumn changed _ params :: earlier, name =>
      if changed = name then params <|> paramsOf stored earlier name
      else paramsOf stored earlier name
  | renameColumn old new :: earlier, name =>
      paramsOf stored earlier (if new = name then old else name)
  | createTable _ :: earlier, name | dropTable :: earlier, name
  | renameTable _ :: earlier, name | dropColumn _ :: earlier, name =>
      paramsOf stored earlier name

/-- The stored column that is to fill a column, by the parameters that it has
after the actions. -/
def fillFromOf (stored : Table) (actions : List Action) (name : String) : Option String :=
  (paramsOf stored actions name).bind (·.fillFrom)

/-- What is to stand in place of NULL, by the same parameters. -/
def coalesceOf (stored : Table) (actions : List Action) (name : String) : Option Literal :=
  (paramsOf stored actions name).bind (·.coalesce)

end Action

namespace TableColumn

/-- The stored column that an entry records as its source. -/
def source? (entry : TableColumn) : Option String :=
  match entry.origin with
  | .kept => some entry.name
  | .renamed source => some source
  | .added => none

theorem source?_rename (entry : TableColumn) (new : String) :
    (entry.rename new).source? = entry.source? := by
  obtain ⟨column, params, origin⟩ := entry
  cases origin <;> rfl

theorem source?_redefine {entry : TableColumn} {name : String} (hname : entry.name = name)
    (definition : Option Column) (params : Option CopyParams) :
    (entry.redefine name definition params).source? = entry.source? := by
  rw [source?]
  rw [name_redefine hname]
  rfl

/-- A column is copied when it has a source or its parameters give it one. -/
theorem isSome_copyExpression? (entry : TableColumn) :
    entry.copyExpression?.isSome =
      (entry.source?.isSome || entry.fillFrom?.isSome || entry.coalesce?.isSome) := by
  rw [copyExpression?, source?]
  cases entry.origin <;> cases entry.fillFrom? <;> cases entry.coalesce? <;> rfl

end TableColumn

/-- What a column reads that nothing else is to fill: its data where the stored
table has some, with the fallback in place of NULL, or the fallback alone. -/
def CopyExpression.reading? : Option String → Option Literal → Option CopyExpression
  | some source, some fallback => some (.coalesce source fallback)
  | some source, none => some (.column source)
  | none, some fallback => some (.literal fallback)
  | none, none => none

namespace TableColumn

theorem copyExpression?_of_unfilled {entry : TableColumn} (hfill : entry.fillFrom? = none) :
    entry.copyExpression? = CopyExpression.reading? entry.source? entry.coalesce? := by
  rw [copyExpression?, source?, sourceName]
  rw [hfill]
  cases entry.origin <;> cases entry.coalesce? <;> rfl

end TableColumn

namespace Table

/-- The entries after actions, listed from the last to the first, record what
following their names back gives, and their sources are stored columns in the
order in which these are stored. -/
structure Traced (stored : Table) (actions : List Action) (entries : List TableColumn) :
    Prop where
  source_eq : ∀ entry ∈ entries, entry.source? = Action.originOf actions entry.name
  params_eq : ∀ entry ∈ entries, entry.params = Action.paramsOf stored actions entry.name
  sublist : (entries.filterMap TableColumn.source?).Sublist stored.columnNames

theorem find?_of_mem {table : Table} (hdistinct : table.columnNames.Nodup)
    {entry : TableColumn} (hmem : entry ∈ table.entries) :
    table.find? entry.name = some entry :=
  find?_eq_some_of_nodup hdistinct hmem

theorem traced_stored {stored : Table} (hdistinct : stored.columnNames.Nodup)
    (hsettled : ∀ entry ∈ stored.entries, entry.origin = .kept) :
    Traced stored [] stored.entries where
  source_eq entry hmem := by
    rw [TableColumn.source?, hsettled entry hmem]
    rfl
  params_eq entry hmem := by
    rw [Action.paramsOf, find?_of_mem hdistinct hmem, Option.bind_some]
  sublist := by
    have hsources : stored.entries.filterMap TableColumn.source? = stored.columnNames := by
      rw [columnNames, ← List.filterMap_eq_map]
      refine List.filterMap_congr fun entry hmem => ?_
      rw [TableColumn.source?, hsettled entry hmem]
      rfl
    rw [hsources]

variable {stored : Table} {actions : List Action} {entries changed : List TableColumn}

theorem Traced.fillFrom?_eq (htraced : Traced stored actions entries) {entry : TableColumn}
    (hmem : entry ∈ entries) :
    entry.fillFrom? = Action.fillFromOf stored actions entry.name := by
  rw [TableColumn.fillFrom?, htraced.params_eq entry hmem, Action.fillFromOf]

theorem Traced.coalesce?_eq (htraced : Traced stored actions entries) {entry : TableColumn}
    (hmem : entry ∈ entries) :
    entry.coalesce? = Action.coalesceOf stored actions entry.name := by
  rw [TableColumn.coalesce?, htraced.params_eq entry hmem, Action.coalesceOf]

theorem traced_add (htraced : Traced stored actions entries) {column : Column}
    {params : Option CopyParams} (hfree : column.name ∉ Columns.names entries) :
    Traced stored (.addColumn column params :: actions)
      (entries ++ [{ column, params, origin := .added }]) := by
  have hother : ∀ entry ∈ entries, column.name ≠ entry.name := fun entry hmem hsame =>
    hfree (hsame ▸ List.mem_map_of_mem hmem)
  constructor
  · intro entry hmem
    rcases List.mem_append.mp hmem with hmem | hmem
    · rw [Action.originOf, if_neg (hother entry hmem), htraced.source_eq entry hmem]
    · rw [List.mem_singleton.mp hmem, Action.originOf]
      exact (if_pos rfl).symm
  · intro entry hmem
    rcases List.mem_append.mp hmem with hmem | hmem
    · rw [Action.paramsOf, if_neg (hother entry hmem), htraced.params_eq entry hmem]
    · rw [List.mem_singleton.mp hmem, Action.paramsOf]
      exact (if_pos rfl).symm
  · have hadded : [({ column, params, origin := .added } : TableColumn)].filterMap
        TableColumn.source? = [] := rfl
    rw [List.filterMap_append, hadded, List.append_nil]
    exact htraced.sublist

theorem traced_drop (htraced : Traced stored actions entries) (name : String) :
    Traced stored (.dropColumn name :: actions) (entries.eraseP (Named.name · = name)) := by
  constructor
  · intro entry hmem
    exact htraced.source_eq entry (List.mem_of_mem_eraseP hmem)
  · intro entry hmem
    exact htraced.params_eq entry (List.mem_of_mem_eraseP hmem)
  · exact (List.eraseP_sublist.filterMap _).trans htraced.sublist

/-- Changing entries one by one keeps the agreement if their sources stay and
their new names are followed back to the old ones. -/
theorem traced_map (htraced : Traced stored actions entries) {action : Action}
    {change : TableColumn → TableColumn}
    (hsource : ∀ entry, (change entry).source? = entry.source?)
    (hname : ∀ entry ∈ entries, Action.originOf (action :: actions) (change entry).name =
      Action.originOf actions entry.name)
    (hparams : ∀ entry ∈ entries,
      (change entry).params = Action.paramsOf stored (action :: actions) (change entry).name) :
    Traced stored (action :: actions) (entries.map change) := by
  constructor
  · intro entry hmem
    obtain ⟨before, hbefore, rfl⟩ := List.mem_map.mp hmem
    rw [hsource, htraced.source_eq before hbefore, hname before hbefore]
  · intro entry hmem
    obtain ⟨before, hbefore, rfl⟩ := List.mem_map.mp hmem
    exact hparams before hbefore
  · rw [List.filterMap_map, Function.comp_def, funext hsource]
    exact htraced.sublist

theorem traced_change (htraced : Traced stored actions entries) (name : String)
    (definition : Option Column) (params : Option CopyParams) :
    Traced stored (.changeColumn name definition params :: actions)
      (entries.map fun entry =>
        if entry.name = name then entry.redefine name definition params else entry) := by
  apply traced_map htraced
  · intro entry
    split
    next hname => exact TableColumn.source?_redefine hname definition params
    · rfl
  · intro entry _
    split
    next hname => rw [TableColumn.name_redefine hname, Action.originOf]
    · rfl
  · intro entry hmem
    split
    next hname =>
      rw [TableColumn.name_redefine hname, Action.paramsOf, if_pos hname.symm,
        ← htraced.params_eq entry hmem]
      rfl
    next hname =>
      rw [Action.paramsOf, if_neg (Ne.symm hname), htraced.params_eq entry hmem]

theorem traced_rename (htraced : Traced stored actions entries) {old new : String}
    (hfree : new ∉ Columns.names entries) :
    Traced stored (.renameColumn old new :: actions)
      (entries.map fun entry => if entry.name = old then entry.rename new else entry) := by
  have hother : ∀ entry ∈ entries, new ≠ entry.name := fun entry hmem hsame =>
    hfree (hsame ▸ List.mem_map_of_mem hmem)
  have hback : ∀ entry ∈ entries,
      (if new = (if entry.name = old then entry.rename new else entry).name then old
        else (if entry.name = old then entry.rename new else entry).name) = entry.name := by
    intro entry hmem
    by_cases hrenamed : entry.name = old
    · have hnew : (entry.rename new).name = new := rfl
      rw [if_pos hrenamed, if_pos hnew.symm, hrenamed]
    · rw [if_neg hrenamed, if_neg (hother entry hmem)]
  apply traced_map htraced
  · intro entry
    split
    · exact entry.source?_rename new
    · rfl
  · intro entry hmem
    rw [Action.originOf, hback entry hmem]
  · intro entry hmem
    rw [Action.paramsOf, hback entry hmem, ← htraced.params_eq entry hmem]
    split <;> rfl

/-- Each change of a column keeps what the entries record in agreement with the
names followed back. -/
theorem traced_onEntries (htraced : Traced stored actions entries)
    (hnodup : (Columns.names entries).Nodup) {action : Action}
    (hcolumn : action.isColumnChange = true) (hstep : action.onEntries entries = some changed) :
    Traced stored (action :: actions) changed := by
  cases action with
  | addColumn column params =>
      obtain ⟨hfree, rfl⟩ := Columns.add_cases hstep
      exact traced_add htraced hfree
  | changeColumn name definition params =>
      rw [(Columns.modify_cases hstep).2, Columns.place, modify_findIdx_eq_map hnodup]
      exact traced_change htraced name definition params
  | dropColumn name =>
      rw [(Columns.drop_cases hstep).2]
      exact traced_drop htraced name
  | renameColumn old new =>
      obtain ⟨hfree, hmodify⟩ := Columns.rename_cases hstep
      rw [(Columns.modify_cases hmodify).2, Columns.place, modify_findIdx_eq_map hnodup]
      exact traced_rename htraced hfree
  | createTable columns => cases hcolumn
  | dropTable => cases hcolumn
  | renameTable new => cases hcolumn

theorem traced_onEntriesAll {changes : List Action}
    (htraced : Traced stored actions entries) (hnodup : (Columns.names entries).Nodup)
    (hchanges : ∀ action ∈ changes, action.isColumnChange = true)
    (hsteps : Action.onEntriesAll changes entries = some changed) :
    Traced stored (changes.reverse ++ actions) changed := by
  induction changes generalizing actions entries with
  | nil =>
      cases hsteps
      exact htraced
  | cons first rest ih =>
      rw [List.forall_mem_cons] at hchanges
      rw [Action.onEntriesAll, List.foldlM_cons] at hsteps
      obtain ⟨middle, hfirst, hrest⟩ := Option.bind_eq_some_iff.mp hsteps
      rw [List.reverse_cons, List.append_assoc]
      exact ih (traced_onEntries htraced hnodup hchanges.1 hfirst)
        (Action.nodup_onEntries hnodup hfirst) hchanges.2 hrest

theorem traced_renameTable (htraced : Traced stored actions entries) (old new : String) :
    Traced stored (.renameTable new :: actions)
      (entries.map fun entry => { entry with column := entry.column.retarget old new }) := by
  have hname : ∀ entry : TableColumn,
      ({ entry with column := entry.column.retarget old new } : TableColumn).name = entry.name :=
    fun entry => (Column.hom_retarget old new).name_eq entry.column
  apply traced_map htraced
  · intro entry
    unfold TableColumn.source?
    rw [hname]
  · intro entry _
    rw [hname, Action.originOf]
  · intro entry hmem
    rw [hname, Action.paramsOf]
    exact htraced.params_eq entry hmem

/-- Resolving the actions of an alteration on a copy of the stored table. -/
theorem traced_applyAll {registry : Registry} {target : Table}
    (hdistinct : stored.columnNames.Nodup)
    (hsettled : ∀ entry ∈ stored.entries, entry.origin = .kept)
    {changes : List Action} {new : Option String}
    (hchanges : ∀ action ∈ changes, action.isColumnChange = true)
    (happly : registry.applyAll stored (changes ++ (new.map Action.renameTable).toList) =
      .ok target) :
    Traced stored (changes ++ (new.map Action.renameTable).toList).reverse target.entries := by
  rw [Registry.applyAll_append, bind_eq_ok_iff] at happly
  obtain ⟨middle, hmiddle, hlast⟩ := happly
  have hentries := Registry.toOption_applyAll registry hchanges stored
  rw [hmiddle] at hentries
  obtain ⟨entries, hsteps, hmiddleEq⟩ := Option.map_eq_some_iff.mp hentries.symm
  have htraced := traced_onEntriesAll (traced_stored hdistinct hsettled) hdistinct hchanges hsteps
  rw [List.append_nil] at htraced
  subst hmiddleEq
  cases new with
  | none =>
      cases hlast
      simpa using htraced
  | some new =>
      have hmoved : registry.applyTo { stored with entries } (.renameTable new) = .ok target := by
        simpa [Registry.applyAll] using hlast
      rw [Registry.applyTo] at hmoved
      split at hmoved
      · cases hmoved
      · cases hmoved
        rw [Option.map_some, Option.toList_some, List.reverse_append]
        exact traced_renameTable htraced stored.name new

theorem traced_of_changes {registry : Registry} {target : Table}
    (hdistinct : stored.columnNames.Nodup)
    (hsettled : ∀ entry ∈ stored.entries, entry.origin = .kept)
    (hchanges : ∀ action ∈ actions, action.isColumnChange = true)
    (happly : registry.applyAll stored actions = .ok target) :
    Traced stored actions.reverse target.entries := by
  have hactions : actions ++ ((none : Option String).map Action.renameTable).toList = actions :=
    List.append_nil actions
  rw [← hactions] at happly ⊢
  exact traced_applyAll hdistinct hsettled hchanges happly

/-- Where the data of two different columns lies differs. -/
theorem eq_of_source? {table : Table} (hdistinct : stored.columnNames.Nodup)
    (htraced : Traced stored actions table.entries) {first second : TableColumn}
    (hfirst : first ∈ table.entries) (hsecond : second ∈ table.entries) {origin : String}
    (hfirstSource : first.source? = some origin)
    (hsecondSource : second.source? = some origin) : first = second := by
  have hpairwise := List.pairwise_filterMap.mp (hdistinct.sublist htraced.sublist)
  have hsymm : Std.Symm fun first second : TableColumn => ∀ origin, first.source? = some origin →
      ∀ other, second.source? = some other → origin ≠ other :=
    ⟨fun _ _ happart origin horigin other hother =>
      (happart other hother origin horigin).symm⟩
  by_contra hne
  exact hpairwise.forall hfirst hsecond hne origin hfirstSource origin hsecondSource rfl

variable {registry : Registry} {source : String} {target : Table}

theorem names_copies (table : Table) :
    table.copies.map Prod.fst =
      (table.entries.filter (·.copyExpression?.isSome)).map TableColumn.name := by
  rw [copies]
  induction table.entries with
  | nil => rfl
  | cons entry rest ih =>
      cases hcopy : entry.copyExpression? <;> simp [hcopy, ih]

/-- A rebuild copies the columns that have a source or parameters to fill them,
each that is not filled from elsewhere from the stored column it began as. -/
theorem copies_rebuild (registry : Registry) (source : String) {stored target : Table}
    {changes actions : List Action} {new : Option String}
    (hdistinct : stored.columnNames.Nodup)
    (hsettled : ∀ entry ∈ stored.entries, entry.origin = .kept)
    (hchanges : ∀ action ∈ changes, action.isColumnChange = true)
    (hactions : actions = changes ++ (new.map Action.renameTable).toList)
    (happly : registry.applyAll stored actions = .ok target) :
    ∃ copies,
      target.rebuild source =
          [.createTable target.scratchName target.columns,
            .copyRows target.scratchName copies source, .dropTable source,
            .renameTable target.scratchName target.name] ∧
        copies.map Prod.fst = target.columnNames.filter (fun name =>
          (Action.originOf actions.reverse name).isSome ||
            (Action.fillFromOf stored actions.reverse name).isSome ||
            (Action.coalesceOf stored actions.reverse name).isSome) ∧
        (∀ name expression, (name, expression) ∈ copies →
          Action.fillFromOf stored actions.reverse name = none →
            some expression = CopyExpression.reading? (Action.originOf actions.reverse name)
              (Action.coalesceOf stored actions.reverse name)) ∧
        (∀ entry ∈ target.entries,
          entry.params = Action.paramsOf stored actions.reverse entry.name) ∧
        (∀ first ∈ target.columnNames, ∀ second ∈ target.columnNames, ∀ origin,
          Action.originOf actions.reverse first = some origin →
            Action.originOf actions.reverse second = some origin → first = second) ∧
        ∀ name ∈ target.columnNames, ∀ origin,
          Action.originOf actions.reverse name = some origin → origin ∈ stored.columnNames := by
  subst hactions
  have htraced := traced_applyAll hdistinct hsettled hchanges happly
  generalize (changes ++ (new.map Action.renameTable).toList).reverse = followed at htraced ⊢
  refine ⟨target.copies, rfl, ?_, ?_, htraced.params_eq, ?_, ?_⟩
  · rw [names_copies, columnNames, List.filter_map]
    refine congrArg _ (List.filter_congr fun entry hmem => ?_)
    rw [TableColumn.isSome_copyExpression?, htraced.source_eq entry hmem,
      htraced.fillFrom?_eq hmem, htraced.coalesce?_eq hmem]
    rfl
  · intro name expression hmem hfill
    obtain ⟨entry, hentry, hcopy⟩ := List.mem_filterMap.mp hmem
    obtain ⟨read, hread, hpair⟩ := Option.map_eq_some_iff.mp hcopy
    cases hpair
    rw [← htraced.fillFrom?_eq hentry] at hfill
    rw [← hread, TableColumn.copyExpression?_of_unfilled hfill, htraced.source_eq entry hentry,
      htraced.coalesce?_eq hentry]
  · intro first hfirst second hsecond origin hfirstOrigin hsecondOrigin
    obtain ⟨firstEntry, hfirstEntry, rfl⟩ := List.mem_map.mp hfirst
    obtain ⟨secondEntry, hsecondEntry, rfl⟩ := List.mem_map.mp hsecond
    rw [← htraced.source_eq _ hfirstEntry] at hfirstOrigin
    rw [← htraced.source_eq _ hsecondEntry] at hsecondOrigin
    rw [eq_of_source? hdistinct htraced hfirstEntry hsecondEntry hfirstOrigin hsecondOrigin]
  · intro name hname origin horigin
    obtain ⟨entry, hentry, rfl⟩ := List.mem_map.mp hname
    rw [← htraced.source_eq entry hentry] at horigin
    exact htraced.sublist.subset (List.mem_filterMap.mpr ⟨entry, hentry, horigin⟩)

/-- A table with a pending fallback, and actions that swap two of its columns and
put a new one in the place of a third. -/
def swapped : Table where
  name := "people"
  entries := [{ column := { name := "id", type := .identity } },
    { column := { name := "name", type := .text },
      params := some { coalesce := some (.text "-") } },
    { column := { name := "label", type := .text } },
    { column := { name := "age", type := .integer } }]

def swapping : List Action :=
  [.renameColumn "name" "spare", .renameColumn "label" "name", .renameColumn "spare" "label",
    .dropColumn "age", .addColumn { name := "age", type := .integer } none]

theorem copies_swapping :
    swapped.columnNames.Nodup ∧ (∀ entry ∈ swapped.entries, entry.origin = .kept) ∧
      (∀ action ∈ swapping, action.isColumnChange = true) ∧
      ∃ target copies,
        Registry.empty.applyAll swapped (swapping ++ [.renameTable "persons"]) = .ok target ∧
          target.rebuild "people" =
            [.createTable "persons_tmp" target.columns,
              .copyRows "persons_tmp" copies "people", .dropTable "people",
              .renameTable "persons_tmp" "persons"] ∧
          copies.map Prod.fst = ["id", "label", "name"] := by
  have hdistinct : swapped.columnNames.Nodup := by decide
  have hsettled : ∀ entry ∈ swapped.entries, entry.origin = .kept := by decide
  have hchanges : ∀ action ∈ swapping, action.isColumnChange = true := by decide
  have hresult : (Registry.empty.applyAll swapped
      (swapping ++ [.renameTable "persons"])).toOption.map
        (fun target => (target.name, target.columnNames)) =
          some ("persons", ["id", "label", "name", "age"]) := by decide
  obtain ⟨target, htarget, hshape⟩ := Option.map_eq_some_iff.mp hresult
  have happly := toOption_eq_some_iff.mp htarget
  obtain ⟨hname, hcolumns⟩ := Prod.mk.inj hshape
  have hscratch : target.scratchName = "persons_tmp" := by
    rw [scratchName, hname]
    rfl
  have hactions : swapping ++ [.renameTable "persons"] =
      swapping ++ ((some "persons").map Action.renameTable).toList := rfl
  obtain ⟨copies, hrebuild, hcopies, -⟩ := copies_rebuild Registry.empty "people" hdistinct
    hsettled hchanges hactions happly
  rw [hscratch, hname] at hrebuild
  rw [hcolumns] at hcopies
  exact ⟨hdistinct, hsettled, hchanges, target, copies, happly, hrebuild, hcopies⟩

end Table

end SchemaMigration
