import SchemaMigration.Proofs.PlannedSchema

/-!
# A batch in stages

A batch is planned in stages, one for each of the segments that its actions are cut
into.  Each stage says what it finds tracked, what it writes and what it leaves
tracked for the next.  How a list of actions is cut is settled by three properties of
the segments alone.
-/

namespace SchemaMigration

namespace Segment

/-! ## Cutting -/

/-- One alteration follows another only where the table has been renamed in between. -/
def Apart : Segment → Segment → Prop
  | alter earlier, alter _ => ∃ action ∈ earlier, action.isRenameTable = true
  | _, _ => True

/-- Segments that a list of actions is cut into: none of the actions is lost, each
segment is a creation, a drop or an alteration, and no two alterations could be one. -/
structure IsCut (list : List Action) (segments : List Segment) : Prop where
  actions_eq : segments.flatMap actions = list
  wellFormed : ∀ segment ∈ segments, segment.WellFormed
  apart : segments.IsChain Apart

theorem isChain_prepend {action : Action} {segments : List Segment}
    (hsegments : segments.IsChain Apart) : (prepend action segments).IsChain Apart := by
  unfold prepend
  split
  -- The action joins the first alteration, which keeps the renaming it had, if any.
  next earlier rest =>
    rw [List.isChain_cons] at hsegments ⊢
    refine ⟨fun next hnext => ?_, hsegments.2⟩
    have hfirst := hsegments.1 next hnext
    cases next with
    | alter later =>
        obtain ⟨found, hmem, hrenames⟩ := hfirst
        exact ⟨found, List.mem_cons_of_mem action hmem, hrenames⟩
    | create columns => trivial
    | drop => trivial
  next hother =>
    rw [List.isChain_cons]
    refine ⟨fun next hnext => ?_, hsegments⟩
    cases next with
    | alter later =>
        obtain ⟨rest, hrest⟩ := List.head?_eq_some_iff.mp hnext
        exact absurd hrest (hother later rest)
    | create columns => trivial
    | drop => trivial

theorem isCut_cut (list : List Action) : IsCut list (cut list) where
  actions_eq := flatMap_actions_cut list
  wellFormed := wellFormed_cut list
  apart := by
    induction list with
    | nil => exact List.isChain_nil
    | cons action rest ih =>
        by_cases hcolumn : action.isColumnChange = true
        · rw [cut_cons hcolumn]
          exact isChain_prepend ih
        · cases action with
          | createTable columns => exact List.isChain_cons.mpr ⟨fun _ _ => trivial, ih⟩
          | dropTable => exact List.isChain_cons.mpr ⟨fun _ _ => trivial, ih⟩
          | renameTable new =>
              refine List.isChain_cons.mpr ⟨fun next _ => ?_, ih⟩
              cases next with
              | alter later => exact ⟨_, List.mem_singleton.mpr rfl, rfl⟩
              | create columns => trivial
              | drop => trivial
          | _ => exact absurd rfl hcolumn

/-- Changes of columns that end in a renaming are one alteration. -/
theorem cut_renaming {changes : List Action}
    (hchanges : ∀ action ∈ changes, action.isColumnChange = true) (new : String)
    (rest : List Action) :
    cut (changes ++ .renameTable new :: rest) =
      .alter (changes ++ [.renameTable new]) :: cut rest := by
  induction changes with
  | nil => rfl
  | cons action others ih =>
      rw [List.forall_mem_cons] at hchanges
      rw [List.cons_append, cut_cons hchanges.1, ih hchanges.2]
      rfl

/-- Changes of columns are one alteration where none follows. -/
theorem cut_changes {changes : List Action} (hne : changes ≠ [])
    (hchanges : ∀ action ∈ changes, action.isColumnChange = true) {rest : List Action}
    (hrest : ∀ later, .alter later ∉ (cut rest).head?) :
    cut (changes ++ rest) = .alter changes :: cut rest := by
  induction changes with
  | nil => exact absurd rfl hne
  | cons action others ih =>
      rw [List.forall_mem_cons] at hchanges
      rw [List.cons_append, cut_cons hchanges.1]
      by_cases hothers : others = []
      · subst hothers
        rw [List.nil_append, prepend]
        intro later tail hcut
        exact hrest later (by rw [hcut]; rfl)
      · rw [ih hothers hchanges.2]
        rfl

/-- A segment is cut off in front of what it does not go together with. -/
theorem cut_actions_append {segment : Segment} (hwell : segment.WellFormed)
    {rest : List Action} (hapart : ∀ next ∈ (cut rest).head?, Apart segment next) :
    cut (segment.actions ++ rest) = segment :: cut rest := by
  cases segment with
  | create columns => rfl
  | drop => rfl
  | alter list =>
      obtain ⟨hne, changes, new, rfl, hchanges⟩ := hwell
      cases new with
      | some new =>
          simp only [actions, Option.map_some, Option.toList_some, List.append_assoc]
          exact cut_renaming hchanges new rest
      | none =>
          simp only [Option.map_none, Option.toList_none, List.append_nil, actions]
            at hne hapart ⊢
          refine cut_changes hne hchanges fun later hlater => ?_
          obtain ⟨action, hmem, hrenames⟩ := hapart _ hlater
          have hcolumn := hchanges action hmem
          rw [Action.isColumnChange, hrenames, Bool.not_true, Bool.and_false] at hcolumn
          cases hcolumn

/-- A list of actions is cut in one way. -/
theorem isCut_iff {list : List Action} {segments : List Segment} :
    IsCut list segments ↔ segments = cut list := by
  constructor
  · rintro ⟨rfl, hwell, hapart⟩
    induction segments with
    | nil => rfl
    | cons segment rest ih =>
        rw [List.forall_mem_cons] at hwell
        rw [List.isChain_cons] at hapart
        have hrest := ih hwell.2 hapart.2
        rw [hrest] at hapart
        rw [List.flatMap_cons, cut_actions_append hwell.1 hapart.1, ← hrest]
  · rintro rfl
    exact isCut_cut list

end Segment

/-- The `ALTER TABLE` form that an action takes in place and that an engine may lack. -/
def Action.capability? : Action → Option Capability
  | dropColumn _ => some .dropColumn
  | renameColumn _ _ => some .renameColumn
  | renameTable _ => some .renameTable
  | createTable _ | dropTable | addColumn _ _ | changeColumn _ _ _ => none

namespace Planner

variable {planner : Planner} {registry next : Registry} {source : String}
  {actions : List Action} {batch : BatchPlan}

/-! ## Writing actions in place -/

/-- The statement of an action, in a form that the engine has. -/
structure Written (planner : Planner) (source : String) (statement : Statement)
    (action : Action) : Prop where
  writes : Writes source statement action
  supported : ∀ capability ∈ action.capability?,
    planner.capabilities.supports capability = true

theorem direct_eq_ok_iff {action : Action} {statement : Statement} :
    planner.direct source action = .ok statement ↔ planner.Written source statement action := by
  constructor
  · intro hdirect
    refine ⟨writes_of_direct hdirect, fun capability hcapability => ?_⟩
    cases action <;> cases hcapability
    all_goals
      rw [direct] at hdirect
      split at hdirect
      next hsupported => exact hsupported
      · cases hdirect
  · rintro ⟨hwrites, hsupported⟩
    cases hwrites with
    | addColumn column params => rfl
    | dropColumn name => exact if_pos (hsupported _ rfl)
    | renameColumn old new => exact if_pos (hsupported _ rfl)
    | renameTable new => exact if_pos (hsupported _ rfl)

/-- Actions are written in place one by one. -/
theorem mapM_direct_iff {statements : List Statement} :
    actions.mapM (planner.direct source) = .ok statements ↔
      List.Forall₂ (planner.Written source) statements actions := by
  induction actions generalizing statements with
  | nil =>
      rw [List.forall₂_nil_right_iff, List.mapM_nil]
      exact ⟨fun hnil => (Except.ok.inj hnil).symm, fun hnil => hnil ▸ rfl⟩
  | cons action rest ih =>
      constructor
      · intro hdirect
        obtain ⟨first, others, hfirst, hothers, rfl⟩ := mapM_cons_eq_ok hdirect
        exact .cons (direct_eq_ok_iff.mp hfirst) (ih.mp hothers)
      · rintro (_ | ⟨hfirst, hothers⟩)
        rw [List.mapM_cons, direct_eq_ok_iff.mpr hfirst, ih.mpr hothers]
        rfl

/-- Some action needs a rebuild in the state that the actions before it leave. -/
def Forced (planner : Planner) (registry : Registry) (table : Table)
    (actions : List Action) : Prop :=
  ∃ earlier action later reached, actions = earlier ++ action :: later ∧
    registry.applyAll table earlier = .ok reached ∧ planner.forcesRebuild reached action = true

theorem needsRebuild_iff {table : Table} :
    planner.needsRebuild registry table actions = true ↔
      planner.Forced registry table actions := by
  induction actions generalizing table with
  | nil =>
      refine iff_of_false Bool.false_ne_true ?_
      rintro ⟨earlier, action, later, -, hsplit, -⟩
      simp at hsplit
  | cons first rest ih =>
      -- Where the first action does not force it, both sides look behind that action, in the
      -- state that it leaves; where it cannot be applied, both sides are false.
      by_cases hfirst : planner.forcesRebuild table first = true
      · refine iff_of_true ?_ ⟨[], first, rest, table, rfl, rfl, hfirst⟩
        rw [needsRebuild, firstForced?, if_pos hfirst, Option.isSome_some]
      · rw [needsRebuild, firstForced?, if_neg hfirst]
        constructor
        · intro hforced
          split at hforced
          next middle hmiddle =>
            obtain ⟨earlier, action, later, reached, rfl, hreached, haction⟩ := ih.mp hforced
            refine ⟨first :: earlier, action, later, reached, rfl, ?_, haction⟩
            exact bind_eq_ok_iff.mpr ⟨middle, hmiddle, hreached⟩
          · cases hforced
        · rintro ⟨earlier, action, later, reached, hsplit, hreached, haction⟩
          cases earlier with
          | nil =>
              cases hsplit
              cases hreached
              exact absurd haction hfirst
          | cons other earlier =>
              cases hsplit
              obtain ⟨middle, hmiddle, hreached⟩ := bind_eq_ok_iff.mp hreached
              rw [hmiddle]
              exact ih.mpr ⟨earlier, action, later, reached, rfl, hreached, haction⟩

instance (planner : Planner) (registry : Registry) (table : Table) (actions : List Action) :
    Decidable (planner.Forced registry table actions) :=
  decidable_of_iff _ needsRebuild_iff

/-! ## Stages -/

/-- What a segment writes against the registry that it finds, and the registry that it
leaves. -/
inductive Emits (planner : Planner) (source : String) :
    Registry → Segment → List Statement → Registry → Prop
  | rebuild {registry next : Registry} {stored target : Table} {actions : List Action}
      (tracked : registry.find? source = some stored)
      (applied : registry.applyAll stored actions = .ok target)
      (forced : planner.Forced registry stored actions)
      (replaced : registry.replace source target.forgetParams.settle = .ok next) :
      Emits planner source registry (.alter actions)
        [.createTable (target.name ++ "_tmp") target.columns,
          .copyRows (target.name ++ "_tmp") target.copies source,
          .dropTable source,
          .renameTable (target.name ++ "_tmp") target.name] next
  | inPlace {registry next : Registry} {stored target : Table} {actions : List Action}
      {statements : List Statement}
      (tracked : registry.find? source = some stored)
      (applied : registry.applyAll stored actions = .ok target)
      (unforced : ¬planner.Forced registry stored actions)
      (written : List.Forall₂ (planner.Written source) statements actions)
      (replaced : registry.replace source target.settle = .ok next) :
      Emits planner source registry (.alter actions) statements next
  | create {registry next : Registry} {columns : List Column}
      (distinct : (Columns.names columns).Nodup)
      (free : registry.contains source = false)
      (inserted : registry.insert (Table.fresh source columns) = .ok next) :
      Emits planner source registry (.create columns) [.createTable source columns] next
  | recreate {registry freed next : Registry} {columns : List Column}
      (distinct : (Columns.names columns).Nodup)
      (taken : registry.contains source = true)
      (replaces : planner.replaceExisting = true)
      (removed : registry.remove source = .ok freed)
      (inserted : freed.insert (Table.fresh source columns) = .ok next) :
      Emits planner source registry (.create columns)
        [.dropTable source, .createTable source columns] next
  | drop {registry next : Registry} (removed : registry.remove source = .ok next) :
      Emits planner source registry .drop [.dropTable source] next

/-- Whether some action of a segment forces a rebuild. -/
def Rebuilds (planner : Planner) (source : String) (registry : Registry) : Segment → Prop
  | .alter actions =>
      ∃ stored, registry.find? source = some stored ∧ planner.Forced registry stored actions
  | .create _ | .drop => False

instance (planner : Planner) (source : String) (registry : Registry) :
    DecidablePred (planner.Rebuilds source registry)
  | .alter actions =>
      decidable_of_iff
        ((registry.find? source).any fun stored =>
          planner.needsRebuild registry stored actions) (by
            simp only [Rebuilds, Option.any_eq_true, needsRebuild_iff])
  | .create _ | .drop => inferInstanceAs (Decidable False)

theorem emits_planAlteration
    (hplan : planner.planAlteration registry source actions = .ok (next, batch)) :
    planner.Emits source registry (.alter actions) batch.statements next ∧
      batch.rebuilds = if planner.Rebuilds source registry (.alter actions) then 1 else 0 := by
  obtain ⟨stored, target, hfind, happly, houtcome⟩ := planAlteration_ok hplan
  have hrebuilds : planner.Rebuilds source registry (.alter actions) ↔
      planner.needsRebuild registry stored actions = true := by
    rw [Rebuilds, needsRebuild_iff]
    constructor
    · rintro ⟨found, hfound, hforced⟩
      rw [hfind] at hfound
      cases hfound
      exact hforced
    · exact fun hforced => ⟨stored, hfind, hforced⟩
  rcases houtcome with ⟨hrebuild, hreplace, rfl⟩ | ⟨hdirect, hreplace, statements, hmap, rfl⟩
  · rw [if_pos (hrebuilds.mpr hrebuild)]
    exact ⟨.rebuild hfind happly (needsRebuild_iff.mp hrebuild) hreplace, rfl⟩
  · have hunforced : ¬planner.needsRebuild registry stored actions = true := by simp [hdirect]
    rw [if_neg (hrebuilds.not.mpr hunforced)]
    exact ⟨.inPlace hfind happly (needsRebuild_iff.not.mp hunforced) (mapM_direct_iff.mp hmap)
      hreplace, rfl⟩

/-- Whatever is planned for a segment, it emits, and a rebuild is counted. -/
theorem emits_of_planSegment {segment : Segment}
    (hplan : planner.planSegment registry source segment = .ok (next, batch)) :
    planner.Emits source registry segment batch.statements next ∧
      batch.rebuilds = if planner.Rebuilds source registry segment then 1 else 0 := by
  cases segment with
  | alter actions => exact emits_planAlteration hplan
  | create columns =>
      obtain ⟨hdistinct, freed, hinsert, hfreed⟩ := planCreation_cases hplan
      rcases hfreed with ⟨hfree, rfl, rfl⟩ | ⟨hreplace, hremove, rfl⟩
      · exact ⟨.create hdistinct hfree hinsert, rfl⟩
      · have htaken := (Registry.contains_of_remove hremove).1
        exact ⟨.recreate hdistinct htaken hreplace hremove hinsert, rfl⟩
  | drop =>
      obtain ⟨hremove, rfl⟩ := planDrop_cases hplan
      exact ⟨.drop hremove, rfl⟩

/-- Whatever a segment emits is planned for it. -/
theorem Emits.exists_planSegment {segment : Segment} {statements : List Statement}
    (hemits : planner.Emits source registry segment statements next) :
    ∃ batch, planner.planSegment registry source segment = .ok (next, batch) := by
  cases hemits with
  | rebuild htracked happlied hforced hreplaced =>
      exact ⟨_, by simp [planSegment, planAlteration, htracked, happlied,
        needsRebuild_iff.mpr hforced, hreplaced, bind, Except.bind]; rfl⟩
  | inPlace htracked happlied hunforced hwritten hreplaced =>
      exact ⟨_, by simp [planSegment, planAlteration, htracked, happlied,
        needsRebuild_iff.not.mpr hunforced, mapM_direct_iff.mpr hwritten, hreplaced, bind,
        Except.bind]; rfl⟩
  | create hdistinct hfree hinserted =>
      exact ⟨_, by simp [planSegment, planCreation, Table.ofColumns_eq_ok_iff.mpr ⟨hdistinct, rfl⟩,
        hfree, hinserted, bind, Except.bind]; rfl⟩
  | recreate hdistinct htaken hreplaces hremoved hinserted =>
      exact ⟨_, by simp [planSegment, planCreation, Table.ofColumns_eq_ok_iff.mpr ⟨hdistinct, rfl⟩,
        htaken, hreplaces, hremoved, hinserted, bind, Except.bind]; rfl⟩
  | drop hremoved => exact ⟨_, by simp [planSegment, planDrop, hremoved, bind, Except.bind]; rfl⟩

/-- A segment declares its actions one at a time. -/
theorem Emits.schema_eq {segment : Segment} (hwell : segment.WellFormed)
    {statements : List Statement}
    (hemits : planner.Emits source registry segment statements next) :
    Schema.applyAll planner.replaceExisting (segment.actions.map (Declaration.mk source))
      registry.schema = some next.schema := by
  obtain ⟨batch, hplan⟩ := hemits.exists_planSegment
  rw [← schema_planSegment planner hwell, hplan]
  rfl

/-- Whatever is written in place takes a form that the engine has. -/
theorem Emits.supported {segment : Segment} {statements : List Statement}
    (hemits : planner.Emits source registry segment statements next)
    (hrebuilds : ¬planner.Rebuilds source registry segment) {action : Action}
    (hmem : action ∈ segment.actions) {capability : Capability}
    (hcapability : capability ∈ action.capability?) :
    planner.capabilities.supports capability = true := by
  cases hemits with
  | rebuild htracked happlied hforced hreplaced =>
      exact absurd ⟨_, htracked, hforced⟩ hrebuilds
  | inPlace htracked happlied hunforced hwritten hreplaced =>
      obtain ⟨index, hindex, rfl⟩ := List.getElem_of_mem hmem
      rw [List.forall₂_iff_get] at hwritten
      exact (hwritten.2 index (hwritten.1 ▸ hindex) hindex).supported capability hcapability
  | create _ _ _ | recreate _ _ _ _ _ | drop _ =>
      cases List.mem_singleton.mp hmem
      cases hcapability

/-- A rebuild is four statements: the final shape of the table is created under a scratch
name, the rows are copied into it, the stored table is dropped and the scratch table takes
the final name. -/
theorem Emits.statements_eq {segment : Segment} {statements : List Statement}
    (hemits : planner.Emits source registry segment statements next)
    (hrebuilds : planner.Rebuilds source registry segment) :
    ∃ stored target, registry.find? source = some stored ∧
      registry.applyAll stored segment.actions = .ok target ∧
      statements = [.createTable (target.name ++ "_tmp") target.columns,
        .copyRows (target.name ++ "_tmp") target.copies source,
        .dropTable source,
        .renameTable (target.name ++ "_tmp") target.name] := by
  cases hemits with
  | rebuild htracked happlied hforced hreplaced => exact ⟨_, _, htracked, happlied, rfl⟩
  | inPlace htracked happlied hunforced hwritten hreplaced =>
      obtain ⟨found, hfound, hforced⟩ := hrebuilds
      rw [htracked] at hfound
      cases hfound
      exact absurd hforced hunforced
  | create _ _ _ | recreate _ _ _ _ _ | drop _ => exact absurd hrebuilds id

/-- A stage of a batch: a segment with the registry that it finds and the statements
that it writes. -/
structure Stage where
  registry : Registry
  segment : Segment
  statements : List Statement

/-- Stages that lead from one registry to another. -/
inductive Passes (planner : Planner) (source : String) :
    Registry → List Stage → Registry → Prop
  | nil (registry : Registry) : Passes planner source registry [] registry
  | cons {registry middle next : Registry} {segment : Segment} {statements : List Statement}
      {rest : List Stage} (emits : planner.Emits source registry segment statements middle)
      (later : Passes planner source middle rest next) :
      Passes planner source registry (⟨registry, segment, statements⟩ :: rest) next

theorem Passes.split {earlier later : List Stage} {stage : Stage}
    (hpasses : planner.Passes source registry (earlier ++ stage :: later) next) :
    ∃ middle, planner.Passes source registry earlier stage.registry ∧
      planner.Emits source stage.registry stage.segment stage.statements middle ∧
        planner.Passes source middle later next := by
  induction earlier generalizing registry with
  | nil =>
      cases hpasses with
      | cons hemits hlater => exact ⟨_, .nil _, hemits, hlater⟩
  | cons first rest ih =>
      cases hpasses with
      | cons hemits hlater =>
          obtain ⟨middle, hrest, hstage, hafter⟩ := ih hlater
          exact ⟨middle, .cons hemits hrest, hstage, hafter⟩

theorem Passes.append {middle : Registry} {earlier later : List Stage}
    (hearlier : planner.Passes source registry earlier middle)
    (hlater : planner.Passes source middle later next) :
    planner.Passes source registry (earlier ++ later) next := by
  induction hearlier with
  | nil registry => exact hlater
  | cons hemits _ ih => exact .cons hemits (ih hlater)

/-- Stages declare their actions one at a time. -/
theorem Passes.schema_eq {stages : List Stage}
    (hwell : ∀ stage ∈ stages, stage.segment.WellFormed)
    (hpasses : planner.Passes source registry stages next) :
    Schema.applyAll planner.replaceExisting
      ((stages.flatMap fun stage => stage.segment.actions).map (Declaration.mk source))
      registry.schema = some next.schema := by
  induction hpasses with
  | nil registry => rfl
  | cons hemits hlater ih =>
      rw [List.forall_mem_cons] at hwell
      rw [List.flatMap_cons, List.map_append, Schema.applyAll_append, hemits.schema_eq hwell.1]
      exact ih hwell.2

theorem exists_passes {segments : List Segment} {planned result : Registry × BatchPlan}
    (hplan : planner.planSegments source planned segments = .ok result) :
    ∃ stages : List Stage, stages.map Stage.segment = segments ∧
      planner.Passes source planned.1 stages result.1 ∧
      result.2.statements = planned.2.statements ++ stages.flatMap Stage.statements ∧
      result.2.rebuilds = planned.2.rebuilds + stages.countP fun stage =>
        planner.Rebuilds source stage.registry stage.segment := by
  induction segments generalizing planned with
  | nil =>
      cases hplan
      exact ⟨[], rfl, .nil _, by simp, rfl⟩
  | cons segment rest ih =>
      obtain ⟨changed, more, hsegment, hrest⟩ := planSegments_cons_eq_ok.mp hplan
      obtain ⟨hemits, hcount⟩ := emits_of_planSegment hsegment
      obtain ⟨stages, hsegments, hpasses, hstatements, hrebuilds⟩ := ih hrest
      refine ⟨⟨planned.1, segment, more.statements⟩ :: stages, ?_, .cons hemits hpasses, ?_, ?_⟩
      · rw [List.map_cons, hsegments]
      · rw [hstatements, List.flatMap_cons, List.append_assoc]
      · rw [hrebuilds, hcount, List.countP_cons]
        simp only [decide_eq_true_eq]
        omega

theorem Passes.exists_planSegments {stages : List Stage}
    (hpasses : planner.Passes source registry stages next) (batch : BatchPlan) :
    ∃ result, planner.planSegments source (registry, batch) (stages.map Stage.segment) =
      .ok (next, result) := by
  induction hpasses generalizing batch with
  | nil registry => exact ⟨batch, rfl⟩
  | cons hemits hlater ih =>
      obtain ⟨more, hsegment⟩ := hemits.exists_planSegment
      obtain ⟨result, hrest⟩ := ih ⟨more.table, batch.statements ++ more.statements,
        batch.rebuilds + more.rebuilds⟩
      exact ⟨result, planSegments_cons_eq_ok.mpr ⟨_, more, hsegment, hrest⟩⟩

/-- Every batch that is planned passes through stages. -/
theorem stages_of_plan
    (hplan : planner.plan registry source actions = .ok (next, batch)) :
    ∃ stages : List Stage, Segment.IsCut actions (stages.map Stage.segment) ∧
      planner.Passes source registry stages next ∧
      batch.statements = stages.flatMap Stage.statements ∧
      batch.rebuilds = stages.countP fun stage =>
        planner.Rebuilds source stage.registry stage.segment := by
  obtain ⟨stages, hsegments, hpasses, hstatements, hrebuilds⟩ := exists_passes hplan
  refine ⟨stages, Segment.isCut_iff.mpr hsegments, hpasses, ?_, ?_⟩
  · simpa using hstatements
  · simpa using hrebuilds

/-- Actions are planned that can pass through stages. -/
theorem Passes.exists_plan {stages : List Stage}
    (hpasses : planner.Passes source registry stages next)
    (hcut : Segment.IsCut actions (stages.map Stage.segment)) :
    ∃ batch, planner.plan registry source actions = .ok (next, batch) := by
  rw [plan, ← Segment.isCut_iff.mp hcut]
  exact hpasses.exists_planSegments _

/-- The statements of a batch that is planned are those of its stages.  Each stage finds
the tables that the actions before it declare.  A stage that rebuilds is the four statements
that put the final shape of the table into its place, and only such stages are counted.  No
other stage takes a form that the engine lacks. -/
theorem statements_of_plan
    (hplan : planner.plan registry source actions = .ok (next, batch)) :
    ∃ stages : List Stage, Segment.IsCut actions (stages.map Stage.segment) ∧
      planner.Passes source registry stages next ∧
      batch.statements = stages.flatMap Stage.statements ∧
      (batch.rebuilds = stages.countP fun stage =>
        planner.Rebuilds source stage.registry stage.segment) ∧
      (∀ stage ∈ stages, planner.Rebuilds source stage.registry stage.segment →
        ∃ stored target, stage.registry.find? source = some stored ∧
          stage.registry.applyAll stored stage.segment.actions = .ok target ∧
          stage.statements = [.createTable (target.name ++ "_tmp") target.columns,
            .copyRows (target.name ++ "_tmp") target.copies source,
            .dropTable source,
            .renameTable (target.name ++ "_tmp") target.name]) ∧
      (∀ stage ∈ stages, ¬planner.Rebuilds source stage.registry stage.segment →
        ∀ action ∈ stage.segment.actions, ∀ capability ∈ action.capability?,
          planner.capabilities.supports capability = true) ∧
      ∀ earlier stage later, stages = earlier ++ stage :: later →
        Schema.applyAll planner.replaceExisting
          ((earlier.flatMap fun stage => stage.segment.actions).map (Declaration.mk source))
          registry.schema = some stage.registry.schema := by
  obtain ⟨stages, hcut, hpasses, hstatements, hrebuilds⟩ := stages_of_plan hplan
  refine ⟨stages, hcut, hpasses, hstatements, hrebuilds, ?_, ?_, ?_⟩
  · intro stage hmem hrebuild
    obtain ⟨earlier, later, rfl⟩ := List.append_of_mem hmem
    obtain ⟨middle, -, hemits, -⟩ := hpasses.split
    exact hemits.statements_eq hrebuild
  · intro stage hmem hrebuild action haction capability hcapability
    obtain ⟨earlier, later, rfl⟩ := List.append_of_mem hmem
    obtain ⟨middle, -, hemits, -⟩ := hpasses.split
    exact hemits.supported hrebuild haction hcapability
  · rintro earlier stage later rfl
    obtain ⟨middle, hearlier, -, -⟩ := hpasses.split
    refine hearlier.schema_eq fun other hmem => hcut.wellFormed _ ?_
    exact List.mem_map_of_mem (List.mem_append_left _ hmem)

/-- Rebuilds a table under a new name, then begins one of the old name, alters it in
place and ends it. -/
def renewing : List Action :=
  [.addColumn { name := "age", type := .integer } none,
    .changeColumn "name" (some { name := "name", type := .text, notNull := true }) none,
    .renameTable "persons",
    .createTable [{ name := "id", type := .identity }],
    .addColumn { name := "home", type := .text } none,
    .dropTable]

theorem statements_renewing :
    ∃ next batch, Planner.plan ⟨"sqlite", ⟨true, true, true⟩, false⟩
        ⟨[Table.fresh "people" [{ name := "name", type := .text }]]⟩ "people" renewing =
          .ok (next, batch) ∧
      batch.statements.map Statement.sql =
        ["CREATE TABLE \"persons_tmp\" (\"name\" TEXT NOT NULL, \"age\" INTEGER);",
          "INSERT INTO \"persons_tmp\" (\"name\") SELECT \"name\" FROM \"people\";",
          "DROP TABLE \"people\";",
          "ALTER TABLE \"persons_tmp\" RENAME TO \"persons\";",
          "CREATE TABLE \"people\" (\"id\" INTEGER PRIMARY KEY AUTOINCREMENT);",
          "ALTER TABLE \"people\" ADD COLUMN \"home\" TEXT;",
          "DROP TABLE \"people\";"] ∧
      ∃ stages : List Stage, stages.map Stage.segment =
          [.alter (renewing.take 3), .create [{ name := "id", type := .identity }],
            .alter [.addColumn { name := "home", type := .text } none], .drop] ∧
        batch.statements = stages.flatMap Stage.statements ∧ batch.rebuilds = 1 := by
  have hplanned : (Planner.plan ⟨"sqlite", ⟨true, true, true⟩, false⟩
      ⟨[Table.fresh "people" [{ name := "name", type := .text }]]⟩ "people"
        renewing).toOption.map (fun planned =>
          (planned.2.statements.map Statement.sql, planned.2.rebuilds)) =
        some (["CREATE TABLE \"persons_tmp\" (\"name\" TEXT NOT NULL, \"age\" INTEGER);",
          "INSERT INTO \"persons_tmp\" (\"name\") SELECT \"name\" FROM \"people\";",
          "DROP TABLE \"people\";",
          "ALTER TABLE \"persons_tmp\" RENAME TO \"persons\";",
          "CREATE TABLE \"people\" (\"id\" INTEGER PRIMARY KEY AUTOINCREMENT);",
          "ALTER TABLE \"people\" ADD COLUMN \"home\" TEXT;",
          "DROP TABLE \"people\";"], 1) := by
    decide
  obtain ⟨⟨next, batch⟩, hresult, hbatch⟩ := Option.map_eq_some_iff.mp hplanned
  obtain ⟨htexts, hone⟩ := Prod.mk.inj hbatch
  have hplan := toOption_eq_some_iff.mp hresult
  obtain ⟨stages, hcut, -, hstatements, -⟩ := statements_of_plan hplan
  exact ⟨next, batch, hplan, htexts, stages, Segment.isCut_iff.mp hcut, hstatements, hone⟩

end Planner

end SchemaMigration
