import SchemaMigration.Proofs.SettledTables
import SchemaMigration.Proofs.Stages

/-!
# The slots of the tracked tables

The registry keeps its tables in the order in which they were created.  Planning a
batch of one table leaves the others as they are and in their order, except that their
foreign columns follow when the table is renamed.  A renamed table stays in its slot.
-/

namespace SchemaMigration

/-- A column that follows a renaming no longer references the old name. -/
theorem Column.target?_retarget_ne {old new : String} (hmoved : new ≠ old) (column : Column) :
    (column.retarget old new).target? ≠ some old := by
  rw [Column.target?_retarget]
  split
  · simpa using hmoved
  next hother => exact hother

namespace Registry

variable {registry next : Registry} {name : String} {table : Table}

/-- The tables that do not have the name, in their order. -/
def others (registry : Registry) (name : String) : List Table :=
  registry.tables.filter (·.name ≠ name)

theorem others_insert (hinsert : registry.insert table = .ok next) :
    next.others table.name = registry.others table.name := by
  rw [insert] at hinsert
  split at hinsert
  · cases hinsert
  · cases hinsert
    simp [others]

theorem others_remove (hremove : registry.remove name = .ok next) :
    next.others name = registry.others name := by
  rw [remove] at hremove
  split at hremove
  · cases hremove
    simp [others, List.filter_filter]
  · cases hremove

/-- What a change of tables leaves behind of those that it does not keep apart. -/
theorem filter_map_eq {tables : List Table} {change follow : Table → Table}
    {kept after : Table → Bool} (hkept : ∀ other ∈ tables, after (change other) = kept other)
    (hfollow : ∀ other ∈ tables, kept other = true → change other = follow other) :
    (tables.map change).filter after = (tables.filter kept).map follow := by
  have hfilter : tables.filter (after ∘ change) = tables.filter kept := List.filter_congr hkept
  rw [List.filter_map, hfilter]
  refine List.map_congr_left fun other hmem => ?_
  exact hfollow other (List.mem_filter.mp hmem).1 (List.mem_filter.mp hmem).2

theorem tables_replace_self (hsame : table.name = name)
    (hreplace : registry.replace name table = .ok next) :
    next.tables = registry.tables.map fun other => if other.name = name then table else other := by
  obtain ⟨-, ⟨-, rfl⟩ | ⟨hmoved, -, -⟩⟩ := replace_cases hreplace
  · rfl
  · exact absurd hsame hmoved

/-- A table that keeps its name disturbs no other. -/
theorem others_replace_self (hsame : table.name = name)
    (hreplace : registry.replace name table = .ok next) :
    next.others name = registry.others name := by
  rw [others, tables_replace_self hsame hreplace]
  refine (filter_map_eq (fun other _ => ?_) fun other _ hkept => ?_).trans (List.map_id _)
  · by_cases hother : other.name = name
    · simp [hother, hsame]
    · simp [hother]
  · exact if_neg (by simpa using hkept)

/-- A table that takes a new name stays in its slot, and the others follow it. -/
theorem tables_replace_of_ne (hmoved : table.name ≠ name)
    (hreplace : registry.replace name table = .ok next) :
    next.tables = registry.tables.map fun other =>
      if other.name = name then table else other.retarget name table.name := by
  obtain ⟨-, ⟨hsame, -⟩ | ⟨-, -, rfl⟩⟩ := replace_cases hreplace
  · exact absurd hsame hmoved
  · exact List.map_map

theorem others_replace_of_ne (hmoved : table.name ≠ name)
    (hreplace : registry.replace name table = .ok next) :
    next.others table.name = (registry.others name).map (Table.retarget name table.name) := by
  obtain ⟨-, ⟨hsame, -⟩ | ⟨-, hfree, -⟩⟩ := replace_cases hreplace
  · exact absurd hsame hmoved
  · rw [others, tables_replace_of_ne hmoved hreplace]
    refine filter_map_eq (fun other hmem => ?_) fun other _ hkept => ?_
    · by_cases hother : other.name = name
      · simp [hother]
      · have hunused : other.name ≠ table.name := by
          rintro hused
          rw [← Bool.not_eq_true, contains_iff] at hfree
          exact hfree (hused ▸ List.mem_map_of_mem hmem)
        have hname : (other.retarget name table.name).name = other.name := rfl
        simpa [hother, hname] using hunused
    · exact if_neg (by simpa using hkept)

/-- A table takes a new name in the same slot, whether or not it has been put there anew. -/
theorem tables_replace_after {middle : Registry} {settled : Table} (hsame : settled.name = name)
    (hsettled : registry.replace name settled = .ok middle) (hmoved : table.name ≠ name)
    (hreplace : registry.replace name table = .ok next) :
    next.tables = middle.tables.map fun other =>
      if other.name = name then table else other.retarget name table.name := by
  rw [tables_replace_of_ne hmoved hreplace, tables_replace_self hsame hsettled, List.map_map]
  refine List.map_congr_left fun other _ => ?_
  by_cases hother : other.name = name
  · simp [hother, hsame]
  · simp [hother]

end Registry

namespace Segment

/-- Two alterations keep apart from what is in front of them alike. -/
theorem apart_alter_iff {segment : Segment} {first second : List Action} :
    Apart segment (.alter first) ↔ Apart segment (.alter second) := by
  cases segment <;> rfl

/-- The last segment of actions that end in a renaming is an alteration that ends in it. -/
theorem exists_changes_of_last {last : Segment} (hwell : last.WellFormed)
    {before earlier : List Action} {new : String}
    (hactions : before ++ last.actions = earlier ++ [Action.renameTable new]) :
    ∃ changes, last = .alter (changes ++ [Action.renameTable new]) ∧ earlier = before ++ changes ∧
      ∀ action ∈ changes, action.isColumnChange = true := by
  cases last with
  | create columns => cases List.append_inj_right' hactions rfl
  | drop => cases List.append_inj_right' hactions rfl
  | alter list =>
      obtain ⟨hne, changes, found, rfl, hchanges⟩ := hwell
      cases found with
      -- Without a renaming the last action would be a change of columns.
      | none =>
          rw [Option.map_none, Option.toList_none, List.append_nil] at hne hactions
          obtain ⟨front, action, rfl⟩ := List.eq_nil_or_concat changes |>.resolve_left hne
          rw [actions, List.concat_eq_append, ← List.append_assoc] at hactions
          cases List.append_inj_right' hactions rfl
          cases hchanges (.renameTable new) (by simp)
      | some found =>
          rw [actions, Option.map_some, Option.toList_some, ← List.append_assoc] at hactions
          cases List.append_inj_right' hactions rfl
          exact ⟨changes, rfl, (List.append_inj_left' hactions rfl).symm, hchanges⟩

/-- The segments of actions that end in a renaming, without it. -/
theorem IsCut.before_renaming {earlier : List Action} {new : String} {segments : List Segment}
    (hcut : IsCut (earlier ++ [Action.renameTable new]) segments) :
    ∃ initial changes, segments = initial ++ [Segment.alter (changes ++ [Action.renameTable new])] ∧
      (∀ action ∈ changes, action.isColumnChange = true) ∧
        IsCut earlier (initial ++ if changes = [] then [] else [Segment.alter changes]) := by
  obtain ⟨hactions, hwell, hapart⟩ := hcut
  rcases List.eq_nil_or_concat segments with rfl | ⟨initial, last, rfl⟩
  · simp at hactions
  · rw [List.concat_eq_append] at hactions hwell hapart ⊢
    obtain ⟨hinitial, hlast⟩ := List.forall_mem_append.mp hwell
    rw [List.flatMap_append, List.flatMap_singleton] at hactions
    obtain ⟨changes, rfl, rfl, hchanges⟩ :=
      exists_changes_of_last (List.forall_mem_singleton.mp hlast) hactions
    refine ⟨initial, changes, rfl, hchanges, ?_⟩
    rw [List.isChain_append] at hapart
    split
    next hnone => exact ⟨by simp [hnone], by simpa using hinitial, by simpa using hapart.1⟩
    next hsome =>
      constructor
      · rw [List.flatMap_append, List.flatMap_singleton, actions]
      · refine List.forall_mem_append.mpr ⟨hinitial, List.forall_mem_singleton.mpr ?_⟩
        exact ⟨hsome, changes, none, by simp, hchanges⟩
      · refine List.isChain_append.mpr ⟨hapart.1, List.isChain_singleton _, ?_⟩
        intro before hbefore after hafter
        cases hafter
        exact apart_alter_iff.mp (hapart.2.2 before hbefore _ rfl)

end Segment

namespace Planner

variable {planner : Planner} {registry next : Registry} {source : String}
  {actions : List Action} {batch : BatchPlan}

/-- An alteration puts what its actions make of the stored table into its place. -/
theorem Emits.exists_replace {statements : List Statement}
    (hemits : planner.Emits source registry (.alter actions) statements next) :
    ∃ stored target placed, registry.find? source = some stored ∧
      registry.applyAll stored actions = .ok target ∧ placed.name = target.name ∧
        placed.columns = target.columns ∧ registry.replace source placed = .ok next := by
  cases hemits with
  | @rebuild _ _ target _ htracked happlied hforced hreplaced =>
      have hcolumns : target.forgetParams.settle.columns = target.columns := by
        rw [Table.columns_settle, Table.columns_forgetParams]
      exact ⟨_, target, target.forgetParams.settle, htracked, happlied, rfl, hcolumns, hreplaced⟩
  | @inPlace _ _ target _ _ htracked happlied hunforced hwritten hreplaced =>
      exact ⟨_, target, target.settle, htracked, happlied, rfl, target.columns_settle, hreplaced⟩

/-! ## Without a renaming -/

/-- A segment that does not rename its table disturbs no other. -/
theorem Emits.others_eq {segment : Segment} {statements : List Statement}
    (hwell : segment.WellFormed)
    (hkept : ∀ action ∈ segment.actions, action.isRenameTable = false)
    (hemits : planner.Emits source registry segment statements next) :
    next.others source = registry.others source := by
  cases segment with
  | alter actions =>
      obtain ⟨stored, target, placed, htracked, happlied, hname, -, hreplaced⟩ :=
        hemits.exists_replace
      have hchanges : ∀ action ∈ actions, action.isColumnChange = true := by
        intro action hmem
        rw [Action.isColumnChange, Segment.not_terminal_of_alters hwell action hmem,
          hkept action hmem]
        rfl
      have htarget := Registry.name_of_applyAll_changes hchanges happlied
      exact Registry.others_replace_self
        (hname.trans (htarget.trans (Registry.name_of_find? htracked))) hreplaced
  | create columns =>
      cases hemits with
      | create hdistinct hfree hinserted => exact Registry.others_insert hinserted
      | recreate hdistinct htaken hreplaces hremoved hinserted =>
          exact (Registry.others_insert hinserted).trans (Registry.others_remove hremoved)
  | drop =>
      cases hemits with
      | drop hremoved => exact Registry.others_remove hremoved

theorem Passes.others_eq {stages : List Stage}
    (hwell : ∀ stage ∈ stages, stage.segment.WellFormed)
    (hkept : ∀ stage ∈ stages, ∀ action ∈ stage.segment.actions, action.isRenameTable = false)
    (hpasses : planner.Passes source registry stages next) :
    next.others source = registry.others source := by
  induction hpasses with
  | nil registry => rfl
  | cons hemits _ ih =>
      rw [List.forall_mem_cons] at hwell hkept
      exact (ih hwell.2 hkept.2).trans (hemits.others_eq hwell.1 hkept.1)

/-- A batch that does not rename its table disturbs no other. -/
theorem others_eq_of_plan (hkept : ∀ action ∈ actions, action.isRenameTable = false)
    (hplan : planner.plan registry source actions = .ok (next, batch)) :
    next.others source = registry.others source := by
  obtain ⟨stages, hcut, hpasses, -⟩ := stages_of_plan hplan
  refine hpasses.others_eq (fun stage hmem => ?_) fun stage hmem action haction => ?_
  · exact hcut.wellFormed _ (List.mem_map_of_mem hmem)
  · refine hkept action ?_
    rw [← hcut.actions_eq]
    exact List.mem_flatMap.mpr ⟨_, List.mem_map_of_mem hmem, haction⟩

/-! ## With a renaming -/

/-- What an alteration that ends in a renaming makes of the stored table. -/
theorem applyAll_renaming {stored target : Table} {changes : List Action} {new : String}
    (htracked : registry.find? source = some stored)
    (hchanges : ∀ action ∈ changes, action.isColumnChange = true)
    (happlied : registry.applyAll stored (changes ++ [Action.renameTable new]) = .ok target) :
    new ≠ source ∧ target.name = new ∧
      ∃ changed, registry.applyAll stored changes = .ok changed ∧
        target.columns = changed.columns.map (Column.retarget source new) := by
  have hrenamed : registry.applyAll stored
      (changes ++ ((some new).map Action.renameTable).toList) = .ok target := happlied
  obtain ⟨hname, hfree⟩ := Registry.name_of_applyAll_renaming hchanges htracked hrenamed
  rw [Registry.applyAll_append] at happlied
  obtain ⟨changed, hchanged, hlast⟩ := bind_eq_ok_iff.mp happlied
  have hsource : changed.name = source :=
    (Registry.name_of_applyAll_changes hchanges hchanged).trans (Registry.name_of_find? htracked)
  have hmoved : registry.applyTo changed (.renameTable new) = .ok target := by
    simpa [Registry.applyAll] using hlast
  have hnew : new ≠ source := by
    rintro rfl
    simpa [Registry.contains_of_find? htracked] using hfree new rfl
  refine ⟨hnew, hname, changed, hchanged, ?_⟩
  rcases Registry.applyTo_cases hmoved with ⟨hcolumn, -⟩ | ⟨moved, hsame, rfl⟩ | ⟨hterminal, -⟩
  · cases hcolumn
  · cases hsame
    rw [Registry.columns_retarget, hsource]
    rfl
  · cases hterminal

/-- Changes of columns that can be applied are planned on their own as well. -/
theorem exists_emits_changes (planner : Planner) {stored changed : Table}
    {changes : List Action} (hne : changes ≠ [])
    (hchanges : ∀ action ∈ changes, action.isColumnChange = true)
    (htracked : registry.find? source = some stored)
    (hchanged : registry.applyAll stored changes = .ok changed) :
    ∃ middle statements settled, planner.Emits source registry (.alter changes) statements middle ∧
      settled.name = source ∧ settled.columns = changed.columns ∧
        registry.replace source settled = .ok middle := by
  have halters : Segment.Alters changes := ⟨hne, changes, none, by simp, hchanges⟩
  obtain ⟨⟨middle, batch⟩, hplan⟩ := exists_planAlteration planner halters htracked hchanged
  have hemits := (emits_planAlteration hplan).1
  obtain ⟨found, other, settled, hfound, hother, hname, hcolumns, hreplaced⟩ :=
    hemits.exists_replace
  rw [htracked] at hfound
  cases hfound
  rw [hchanged] at hother
  cases hother
  have hsource : changed.name = source :=
    (Registry.name_of_applyAll_changes hchanges hchanged).trans (Registry.name_of_find? htracked)
  exact ⟨middle, _, settled, hemits, hname.trans hsource, hcolumns, hreplaced⟩

/-- An alteration that ends in a renaming, seen from where it would stop without it. -/
theorem Emits.before_renaming {changes : List Action} {new : String}
    (hchanges : ∀ action ∈ changes, action.isColumnChange = true) {statements : List Statement}
    (hemits : planner.Emits source registry (.alter (changes ++ [Action.renameTable new]))
      statements next) :
    new ≠ source ∧
      ∃ middle stages stored renamed, planner.Passes source registry stages middle ∧
        stages.map Stage.segment = (if changes = [] then [] else [.alter changes]) ∧
        next.others new = (middle.others source).map (Table.retarget source new) ∧
        middle.find? source = some stored ∧ renamed.name = new ∧
        renamed.columns = stored.columns.map (Column.retarget source new) ∧
        next.tables = middle.tables.map fun other =>
          if other.name = source then renamed else other.retarget source new := by
  obtain ⟨stored, target, placed, htracked, happlied, hplaced, hcolumns, hreplaced⟩ :=
    hemits.exists_replace
  obtain ⟨hmoved, htarget, changed, hchanged, hretargeted⟩ :=
    applyAll_renaming htracked hchanges happlied
  obtain rfl : placed.name = new := hplaced.trans htarget
  refine ⟨hmoved, ?_⟩
  have hothers := Registry.others_replace_of_ne hmoved hreplaced
  by_cases hnone : changes = []
  · subst hnone
    cases hchanged
    exact ⟨registry, [], stored, placed, .nil registry, rfl, hothers, htracked, rfl,
      hcolumns.trans hretargeted, Registry.tables_replace_of_ne hmoved hreplaced⟩
  · obtain ⟨middle, before, settled, hbefore, hsource, hkept, hslot⟩ :=
      exists_emits_changes planner hnone hchanges htracked hchanged
    have hfind := Registry.find?_of_replace hslot
    rw [hsource] at hfind
    refine ⟨middle, [⟨registry, .alter changes, before⟩], settled, placed,
      .cons hbefore (.nil middle), (if_neg hnone).symm, ?_, hfind, rfl, ?_,
      Registry.tables_replace_after hsource hslot hmoved hreplaced⟩
    · rw [hothers, Registry.others_replace_self hsource hslot]
    · rw [hcolumns, hretargeted, hkept]

/-- What a batch does to the slots of the tables, if it renames its own table at most at
its end.  The others keep their order and are as they were, except that after a renaming
their foreign columns follow it.  Then nothing references the old name any more, and the
renamed table has the slot that it had before. -/
theorem slots_of_plan
    (hlast : ∀ action ∈ actions.dropLast, action.isRenameTable = false)
    (hplan : planner.plan registry source actions = .ok (next, batch)) :
    ((∀ action ∈ actions, action.isRenameTable = false) →
        next.others source = registry.others source) ∧
      ∀ earlier new, actions = earlier ++ [Action.renameTable new] →
        next.others new = (registry.others source).map (Table.retarget source new) ∧
        (∀ table ∈ next.tables, ∀ column ∈ table.columns, column.target? ≠ some source) ∧
        (∀ column : Column, column.isForeign = false → column.retarget source new = column) ∧
        ∃ middle before stored renamed,
          planner.plan registry source earlier = .ok (middle, before) ∧
          middle.find? source = some stored ∧ renamed.name = new ∧
          renamed.columns = stored.columns.map (Column.retarget source new) ∧
          next.tables = middle.tables.map fun other =>
            if other.name = source then renamed else other.retarget source new := by
  refine ⟨fun hkept => others_eq_of_plan hkept hplan, ?_⟩
  rintro earlier new rfl
  rw [List.dropLast_concat] at hlast
  obtain ⟨stages, hcut, hpasses, -⟩ := stages_of_plan hplan
  obtain ⟨initial, changes, hsegments, hchanges, hbefore⟩ := hcut.before_renaming
  obtain ⟨first, rest, rfl, rfl, hrest⟩ := List.map_eq_append_iff.mp hsegments
  obtain ⟨last, rfl, hsegment⟩ := List.map_eq_singleton_iff.mp hrest
  obtain ⟨final, hfirst, hemits, hnil⟩ := hpasses.split
  cases hnil
  rw [hsegment] at hemits
  obtain ⟨hmoved, middle, stages, stored, renamed, hstages, hsplit, hothers, hfind, hname,
    hcolumns, htables⟩ := hemits.before_renaming hchanges
  rw [← hsplit, ← List.map_append] at hbefore
  obtain ⟨before, hearlier⟩ := (hfirst.append hstages).exists_plan hbefore
  refine ⟨?_, ?_, fun column hforeign => ?_, middle, before, stored, renamed, hearlier, hfind,
    hname, hcolumns, htables⟩
  · rw [hothers, others_eq_of_plan hlast hearlier]
  · intro table htable column hcolumn
    rw [htables] at htable
    obtain ⟨other, -, rfl⟩ := List.mem_map.mp htable
    have hfollowed : ∃ columns : List Column,
        column ∈ columns.map (Column.retarget source new) := by
      split at hcolumn
      · exact ⟨stored.columns, hcolumns ▸ hcolumn⟩
      · exact ⟨other.columns, Registry.columns_retarget source new other ▸ hcolumn⟩
    obtain ⟨columns, hmem⟩ := hfollowed
    obtain ⟨earlier, -, rfl⟩ := List.mem_map.mp hmem
    exact Column.target?_retarget_ne hmoved earlier
  · exact Column.retarget_of_ne new (by simp [Column.target?, hforeign])

/-- A table, one that references it, and one with a reference that is without effect. -/
def kinships : Registry where
  tables :=
    [.fresh "people" [{ name := "species", type := .foreign, references := some "species" }],
      .fresh "species" [{ name := "id", type := .identity }],
      .fresh "notes" [{ name := "about", type := .text, references := some "species" }]]

/-- Adds a reference to the table itself and renames the table. -/
def rooting : List Action :=
  [.addColumn { name := "parent", type := .foreign, references := some "species" } none,
    .renameTable "kinds"]

theorem slots_rooting :
    ∃ next batch, Planner.plan ⟨"sqlite", ⟨true, true, true⟩, false⟩ kinships "species" rooting =
        .ok (next, batch) ∧
      next.others "kinds" =
        [.fresh "people" [{ name := "species", type := .foreign, references := some "kinds" }],
          .fresh "notes" [{ name := "about", type := .text, references := some "species" }]] ∧
      ∀ table ∈ next.tables, ∀ column ∈ table.columns, column.target? ≠ some "species" := by
  have hplanned : (Planner.plan ⟨"sqlite", ⟨true, true, true⟩, false⟩ kinships "species"
      rooting).toOption.isSome = true := by decide
  obtain ⟨⟨next, batch⟩, hresult⟩ := Option.isSome_iff_exists.mp hplanned
  have hplan := toOption_eq_some_iff.mp hresult
  obtain ⟨hothers, hunreferenced, -⟩ := (slots_of_plan (by decide) hplan).2
    [.addColumn { name := "parent", type := .foreign, references := some "species" } none]
    "kinds" rfl
  exact ⟨next, batch, hplan, hothers.trans (by decide), hunreferenced⟩

end Planner

end SchemaMigration
