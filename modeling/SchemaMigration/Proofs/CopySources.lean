import SchemaMigration.Proofs.SettledTables

/-!
# What the copy of a rebuild reads

Left to itself, a copied column reads the stored column that it began as, or a
literal.  A batch may also name the column that fills another one, and that name is
taken as it stands.  So a copy reads only columns of the stored table exactly if every
column that is to fill another is one of them.
-/

namespace SchemaMigration

namespace CopyExpression

/-- The column of the source table that a copied column reads. -/
def read? : CopyExpression → Option String
  | column name | coalesce name _ => some name
  | literal _ => none

end CopyExpression

namespace Statement

/-- The columns that a statement reads from the table whose rows it copies. -/
def reads : Statement → List String
  | copyRows _ copies _ => copies.filterMap fun copy => copy.2.read?
  | _ => []

/-- Whether a statement copies rows. -/
def isCopy : Statement → Bool
  | copyRows _ _ _ => true
  | _ => false

end Statement

namespace Action

/-- The column that an action names to fill the one it adds or changes. -/
def fillFrom? : Action → Option String
  | addColumn _ params | changeColumn _ _ params => params.bind (·.fillFrom)
  | createTable _ | dropTable | renameTable _ | dropColumn _ | renameColumn _ _ => none

/-- A column is filled from another that an action names, or that was pending when the
table was stored. -/
theorem fillFrom?_of_fillFromOf {stored : Table} {actions : List Action} {name source : String}
    (hfill : fillFromOf stored actions name = some source) :
    (∃ action ∈ actions, action.fillFrom? = some source) ∨
      ∃ entry ∈ stored.entries, entry.fillFrom? = some source := by
  rw [fillFromOf] at hfill
  -- The actions come latest first, and the name is followed back through their renames.
  induction actions generalizing name with
  | nil =>
      obtain ⟨params, hparams, hsource⟩ := Option.bind_eq_some_iff.mp hfill
      obtain ⟨entry, hfind, hentry⟩ := Option.bind_eq_some_iff.mp hparams
      refine Or.inr ⟨entry, List.mem_of_find?_eq_some hfind, ?_⟩
      rw [TableColumn.fillFrom?, hentry]
      exact hsource
  | cons action earlier ih =>
      have hearlier : ∀ {followed}, (paramsOf stored earlier followed).bind (·.fillFrom) =
          some source →
            (∃ other ∈ action :: earlier, other.fillFrom? = some source) ∨
              ∃ entry ∈ stored.entries, entry.fillFrom? = some source := by
        intro followed hfollowed
        refine (ih hfollowed).imp_left ?_
        rintro ⟨other, hmem, hother⟩
        exact ⟨other, List.mem_cons_of_mem action hmem, hother⟩
      cases action with
      | addColumn column params =>
          rw [paramsOf] at hfill
          split at hfill
          · exact Or.inl ⟨_, List.mem_cons_self, hfill⟩
          · exact hearlier hfill
      | changeColumn changed definition params =>
          rw [paramsOf] at hfill
          split at hfill
          · cases params with
            | none => exact hearlier hfill
            | some given => exact Or.inl ⟨_, List.mem_cons_self, hfill⟩
          · exact hearlier hfill
      | renameColumn old new | dropColumn dropped | createTable columns | dropTable
      | renameTable new => exact hearlier hfill

end Action

namespace TableColumn

/-- The column that a copy reads in place of the entry's own data.  A renamed column
without a fallback reads its own. -/
def filledFrom? (entry : TableColumn) : Option String :=
  match entry.origin, entry.coalesce? with
  | .renamed _, none => none
  | _, _ => entry.fillFrom?

theorem fillFrom?_of_filledFrom? {entry : TableColumn} {source : String}
    (hfilled : entry.filledFrom? = some source) : entry.fillFrom? = some source := by
  rw [filledFrom?] at hfilled
  split at hfilled
  · cases hfilled
  · exact hfilled

/-- What is copied into a column is read from the one that fills it, or else from the one
it began as. -/
theorem read?_copyExpression? (entry : TableColumn) :
    entry.copyExpression?.bind CopyExpression.read? = (entry.filledFrom? <|> entry.source?) := by
  rw [copyExpression?, filledFrom?, source?, sourceName]
  cases entry.origin <;> cases entry.fillFrom? <;> cases entry.coalesce? <;> rfl

end TableColumn

/-- A rebuild that is planned: the stored table, the actions, and what they make of it. -/
structure Rebuild where
  stored : Table
  actions : List Action
  target : Table

namespace Rebuild

/-- The statement that copies the rows. -/
def copy (rebuild : Rebuild) : Statement :=
  .copyRows rebuild.target.scratchName rebuild.target.copies rebuild.stored.name

theorem mem_reads_copy {rebuild : Rebuild} {name : String} :
    name ∈ rebuild.copy.reads ↔
      ∃ entry ∈ rebuild.target.entries, (entry.filledFrom? <|> entry.source?) = some name := by
  simp only [copy, Statement.reads, Table.copies, List.mem_filterMap]
  constructor
  · rintro ⟨⟨copied, expression⟩, ⟨entry, hentry, hcopy⟩, hread⟩
    obtain ⟨found, hfound, hpair⟩ := Option.map_eq_some_iff.mp hcopy
    cases hpair
    refine ⟨entry, hentry, ?_⟩
    rw [← TableColumn.read?_copyExpression?, hfound]
    exact hread
  · rintro ⟨entry, hentry, hread⟩
    rw [← TableColumn.read?_copyExpression?] at hread
    obtain ⟨expression, hfound, hread⟩ := Option.bind_eq_some_iff.mp hread
    exact ⟨(entry.name, expression), ⟨entry, hentry, by rw [hfound]; rfl⟩, hread⟩

/-- A rebuild as it is planned between two flushes: its actions alter a settled table of
the registry. -/
structure Planned (rebuild : Rebuild) : Prop where
  settled : rebuild.stored.Settled
  alters : Segment.Alters rebuild.actions
  applied : ∃ registry : Registry,
    registry.applyAll rebuild.stored rebuild.actions = .ok rebuild.target

theorem Planned.traced {rebuild : Rebuild} (hplanned : rebuild.Planned) :
    rebuild.stored.Traced rebuild.actions.reverse rebuild.target.entries := by
  obtain ⟨registry, happly⟩ := hplanned.applied
  obtain ⟨-, changes, new, hactions, hchanges⟩ := hplanned.alters
  rw [hactions] at happly ⊢
  exact Table.traced_applyAll hplanned.settled.nodup hplanned.settled.kept hchanges happly

/-- The columns that a table began with are columns of the stored table. -/
theorem Planned.source?_mem {rebuild : Rebuild} (hplanned : rebuild.Planned)
    {entry : TableColumn} (hentry : entry ∈ rebuild.target.entries) {source : String}
    (hsource : entry.source? = some source) : source ∈ rebuild.stored.columnNames :=
  hplanned.traced.sublist.subset (List.mem_filterMap.mpr ⟨entry, hentry, hsource⟩)

theorem Planned.reads_iff {rebuild : Rebuild} (hplanned : rebuild.Planned) :
    (∀ name ∈ rebuild.copy.reads, name ∈ rebuild.stored.columnNames) ↔
      ∀ entry ∈ rebuild.target.entries, ∀ source, entry.filledFrom? = some source →
        source ∈ rebuild.stored.columnNames := by
  constructor
  · intro hreads entry hentry source hfilled
    exact hreads source (mem_reads_copy.mpr ⟨entry, hentry, by rw [hfilled]; rfl⟩)
  · intro hfilled name hname
    obtain ⟨entry, hentry, hread⟩ := mem_reads_copy.mp hname
    cases hfill : entry.filledFrom? with
    | none =>
        rw [hfill] at hread
        exact hplanned.source?_mem hentry hread
    | some source =>
        rw [hfill] at hread
        cases hread
        exact hfilled entry hentry name hfill

/-- Whatever else a copy reads was named by an action of the rebuild. -/
theorem Planned.mem_or_named {rebuild : Rebuild} (hplanned : rebuild.Planned) {name : String}
    (hname : name ∈ rebuild.copy.reads) :
    name ∈ rebuild.stored.columnNames ∨
      ∃ action ∈ rebuild.actions, action.fillFrom? = some name := by
  obtain ⟨entry, hentry, hread⟩ := mem_reads_copy.mp hname
  cases hfill : entry.filledFrom? with
  | none =>
      rw [hfill] at hread
      exact Or.inl (hplanned.source?_mem hentry hread)
  | some source =>
      rw [hfill] at hread
      cases hread
      have hnamed := TableColumn.fillFrom?_of_filledFrom? hfill
      rw [hplanned.traced.fillFrom?_eq hentry] at hnamed
      rcases Action.fillFrom?_of_fillFromOf hnamed with
        ⟨action, hmem, haction⟩ | ⟨pending, hmem, hpending⟩
      · exact Or.inr ⟨action, List.mem_reverse.mp hmem, haction⟩
      · rw [hplanned.settled.unfilled pending hmem] at hpending
        cases hpending

end Rebuild

namespace Planner

variable {planner : Planner} {registry next : Registry} {source : String}
  {batch : BatchPlan}

/-- The rebuild that a segment is planned as. -/
def rebuild? (planner : Planner) (registry : Registry) (source : String) :
    Segment → Option Rebuild
  | .alter actions => do
      let stored ← registry.find? source
      let target ← (registry.applyAll stored actions).toOption
      if planner.needsRebuild registry stored actions then some ⟨stored, actions, target⟩
      else none
  | .create _ | .drop => none

/-- The rebuilds among segments that are planned one after another. -/
def rebuilds (planner : Planner) (source : String) : Registry → List Segment → List Rebuild
  | _, [] => []
  | registry, segment :: rest =>
      (planner.rebuild? registry source segment).toList ++
        match planner.planSegment registry source segment with
        | .ok (next, _) => planner.rebuilds source next rest
        | .error _ => []

theorem planned_of_rebuild? {segment : Segment} (hsettled : registry.Settled)
    (hwell : segment.WellFormed) {rebuild : Rebuild}
    (hrebuild : planner.rebuild? registry source segment = some rebuild) : rebuild.Planned := by
  cases segment with
  | alter actions =>
      obtain ⟨stored, hfind, hrebuild⟩ := Option.bind_eq_some_iff.mp hrebuild
      obtain ⟨target, happly, hrebuild⟩ := Option.bind_eq_some_iff.mp hrebuild
      split at hrebuild
      · cases hrebuild
        exact ⟨hsettled.find? hfind, hwell, registry, toOption_eq_some_iff.mp happly⟩
      · cases hrebuild
  | create columns => cases hrebuild
  | drop => cases hrebuild

theorem filter_isCopy_direct {actions : List Action} {statements : List Statement}
    (hdirect : actions.mapM (planner.direct source) = .ok statements) :
    statements.filter Statement.isCopy = [] := by
  induction actions generalizing statements with
  | nil =>
      cases hdirect
      rfl
  | cons action rest ih =>
      obtain ⟨first, others, hfirst, hothers, rfl⟩ := mapM_cons_eq_ok hdirect
      have hcopies := ih hothers
      cases writes_of_direct hfirst <;> exact hcopies

/-- A segment copies rows only where it is planned as a rebuild. -/
theorem filter_isCopy_planSegment {segment : Segment}
    (hplan : planner.planSegment registry source segment = .ok (next, batch)) :
    batch.statements.filter Statement.isCopy =
      (planner.rebuild? registry source segment).toList.map Rebuild.copy := by
  cases segment with
  | alter actions =>
      obtain ⟨stored, target, hfind, happly, houtcome⟩ := planAlteration_ok hplan
      rcases houtcome with ⟨hrebuild, -, rfl⟩ | ⟨hdirect, -, statements, hstatements, rfl⟩
      · have hfound : planner.rebuild? registry source (.alter actions) =
            some ⟨stored, actions, target⟩ := by
          simp [rebuild?, hfind, happly, hrebuild, Except.toOption]
        rw [hfound, ← Registry.name_of_find? hfind]
        rfl
      · have hnone : planner.rebuild? registry source (.alter actions) = none := by
          simp [rebuild?, hfind, happly, hdirect, Except.toOption]
        rw [hnone]
        exact filter_isCopy_direct hstatements
  | create columns =>
      obtain ⟨-, freed, -, ⟨-, -, rfl⟩ | ⟨-, -, rfl⟩⟩ := planCreation_cases hplan <;> rfl
  | drop =>
      rw [(planDrop_cases hplan).2]
      rfl

/-- Segments planned one after another copy rows for the rebuilds among them. -/
theorem filter_isCopy_planSegments {segments : List Segment}
    {planned result : Registry × BatchPlan}
    (hplan : planner.planSegments source planned segments = .ok result) :
    result.2.statements.filter Statement.isCopy =
      planned.2.statements.filter Statement.isCopy ++
        (planner.rebuilds source planned.1 segments).map Rebuild.copy := by
  induction segments generalizing planned with
  | nil =>
      cases hplan
      simp [rebuilds]
  | cons segment rest ih =>
      obtain ⟨changed, more, hsegment, hrest⟩ := planSegments_cons_eq_ok.mp hplan
      rw [ih hrest, rebuilds, hsegment, List.filter_append, filter_isCopy_planSegment hsegment,
        List.map_append, List.append_assoc]

/-- Each rebuild alters a settled table. -/
theorem planned_of_mem_rebuilds {segments : List Segment} (hsettled : registry.Settled)
    (hwell : ∀ segment ∈ segments, segment.WellFormed) {rebuild : Rebuild}
    (hmem : rebuild ∈ planner.rebuilds source registry segments) : rebuild.Planned := by
  induction segments generalizing registry with
  | nil => cases hmem
  | cons segment rest ih =>
      rw [List.forall_mem_cons] at hwell
      rw [rebuilds] at hmem
      rcases List.mem_append.mp hmem with hfirst | hlater
      · exact planned_of_rebuild? hsettled hwell.1 (Option.mem_toList.mp hfirst)
      · cases hsegment : planner.planSegment registry source segment with
        | error error =>
            rw [hsegment] at hlater
            cases hlater
        | ok planned =>
            rw [hsegment] at hlater
            exact ih (settled_planSegment hsettled hsegment) hwell.2 hlater

end Planner

namespace Compilation

/-- Whatever was run before, the rebuilds of a batch copy rows in their order, and each
reads only columns of its stored table exactly if every column that fills another is one
of them.  A name that it reads otherwise stands in an action of the rebuild. -/
theorem reads_rebuilds_iff (settings : Settings) (commands : List Command) {planner : Planner}
    {table : String} {actions : List Action} {next : Registry} {batch : BatchPlan}
    (hplan : planner.plan ((new settings).run commands).registry table actions =
      .ok (next, batch)) :
    let rebuilds := planner.rebuilds table ((new settings).run commands).registry
      (Segment.cut actions)
    batch.statements.filter Statement.isCopy = rebuilds.map Rebuild.copy ∧
      ∀ rebuild ∈ rebuilds,
        ((∀ name ∈ rebuild.copy.reads, name ∈ rebuild.stored.columnNames) ↔
            ∀ entry ∈ rebuild.target.entries, ∀ source, entry.filledFrom? = some source →
              source ∈ rebuild.stored.columnNames) ∧
          ∀ name ∈ rebuild.copy.reads, name ∈ rebuild.stored.columnNames ∨
            ∃ action ∈ rebuild.actions, action.fillFrom? = some name := by
  refine ⟨Planner.filter_isCopy_planSegments hplan, fun rebuild hmem => ?_⟩
  have hplanned := Planner.planned_of_mem_rebuilds (settled_run settings commands)
    (Segment.wellFormed_cut actions) hmem
  exact ⟨hplanned.reads_iff, fun name hname => hplanned.mem_or_named hname⟩

/-- A run that creates a table of one column. -/
def named : List Command :=
  [.start, .enqueue "people" (.createTable [{ name := "name", type := .text }]), .flush]

/-- Adds a column that one is to fill which the table does not have. -/
def nicknaming : List Action :=
  [.addColumn { name := "alias", type := .text } (some { fillFrom := some "nickname" })]

/-- The batch is planned as a rebuild that reads a name which is no stored column. -/
theorem not_stored_nicknaming :
    ∃ next batch rebuild,
      Planner.plan ⟨"sqlite", ⟨true, true, true⟩, false⟩ ((new {}).run named).registry "people"
          nicknaming = .ok (next, batch) ∧
        batch.statements.filter Statement.isCopy = [Rebuild.copy rebuild] ∧
        rebuild.stored.columnNames = ["name"] ∧ rebuild.copy.reads = ["name", "nickname"] ∧
        ¬∀ name ∈ rebuild.copy.reads, name ∈ rebuild.stored.columnNames := by
  have hplanned : ((Planner.plan ⟨"sqlite", ⟨true, true, true⟩, false⟩
      ((new {}).run named).registry "people" nicknaming).toOption).isSome = true := by decide
  obtain ⟨⟨next, batch⟩, hresult⟩ := Option.isSome_iff_exists.mp hplanned
  have hplan := toOption_eq_some_iff.mp hresult
  have hshape : (Planner.rebuilds ⟨"sqlite", ⟨true, true, true⟩, false⟩ "people"
      ((new {}).run named).registry (Segment.cut nicknaming)).map (fun rebuild =>
        (rebuild.stored.columnNames, rebuild.copy.reads,
          rebuild.target.entries.map fun entry => entry.filledFrom?)) =
      [(["name"], ["name", "nickname"], [none, some "nickname"])] := by decide
  obtain ⟨rebuild, hrebuilds, hrebuild⟩ := List.map_eq_singleton_iff.mp hshape
  simp only [Prod.mk.injEq] at hrebuild
  obtain ⟨hstored, hreads, hfilled⟩ := hrebuild
  obtain ⟨hcopies, hiff⟩ := reads_rebuilds_iff {} named hplan
  rw [hrebuilds] at hcopies hiff
  refine ⟨next, batch, rebuild, hplan, hcopies, hstored, hreads, ?_⟩
  rw [(hiff rebuild List.mem_cons_self).1]
  intro hall
  obtain ⟨entry, hentry, hsource⟩ : ∃ entry ∈ rebuild.target.entries,
      entry.filledFrom? = some "nickname" := by
    rw [← List.mem_map, hfilled]
    decide
  have hmem := hall entry hentry "nickname" hsource
  rw [hstored] at hmem
  exact absurd hmem (by decide)

end Compilation

end SchemaMigration
