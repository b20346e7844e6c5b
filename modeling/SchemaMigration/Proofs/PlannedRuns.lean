import SchemaMigration.Proofs.Runs

/-!
# Runs seen segment by segment

Whatever a run compiles, it compiles one segment after another.  A relation
between the registry and the statements so far that every segment keeps holds
after every run.  Where a segment keeps it only under a condition, the condition
is asked of each segment at the moment at which it is planned.
-/

namespace SchemaMigration

/-- A condition on a segment of the table of a name, asked when it is planned. -/
abbrev SegmentCheck := Planner → Registry → String → Segment → Bool

namespace SegmentCheck

/-- The condition that every segment meets. -/
def always : SegmentCheck := fun _ _ _ _ => true

/-- The condition on an alteration that is asked of the stored table and its outcome.
What is refused meets it. -/
def ofAlteration
    (check : Planner → Registry → String → Table → List Action → Table → Bool) : SegmentCheck
  | planner, registry, table, .alter actions =>
      match registry.find? table with
      | none => true
      | some stored =>
          match registry.applyAll stored actions with
          | .error _ => true
          | .ok target => check planner registry table stored actions target
  | _, _, _, .create _ | _, _, _, .drop => true

theorem ofAlteration_alter
    (check : Planner → Registry → String → Table → List Action → Table → Bool)
    {planner : Planner} {registry : Registry} {table : String} {stored target : Table}
    {actions : List Action} (hfind : registry.find? table = some stored)
    (happly : registry.applyAll stored actions = .ok target) :
    ofAlteration check planner registry table (.alter actions) =
      check planner registry table stored actions target := by
  simp only [ofAlteration, hfind, happly]

/-- Whether segments that are planned one after another all meet the condition. -/
def onSegments (check : SegmentCheck) (planner : Planner) (table : String) :
    Registry → List Segment → Bool
  | _, [] => true
  | registry, segment :: rest =>
      check planner registry table segment &&
        match planner.planSegment registry table segment with
        | .ok (next, _) => check.onSegments planner table next rest
        | .error _ => true

/-- The same for batches that are planned one after another. -/
def onBatches (check : SegmentCheck) (planner : Planner) : Registry → List Batch → Bool
  | _, [] => true
  | registry, batch :: rest =>
      check.onSegments planner batch.table registry (Segment.cut batch.actions) &&
        match planner.plan registry batch.table batch.actions with
        | .ok (next, _) => check.onBatches planner next rest
        | .error _ => true

/-- The same for all that a flush compiles, if it succeeds. -/
def onFlush (check : SegmentCheck) (compilation : Compilation) : Bool :=
  match compilation.flush with
  | .error _ => true
  | .ok _ => check.onBatches compilation.planner compilation.registry compilation.queue.batches

/-- The same for all that a run compiles. -/
def onRun (check : SegmentCheck) (compilation : Compilation) : List Command → Bool
  | [] => true
  | command :: rest =>
      (!command.flushes || check.onFlush compilation) &&
        check.onRun (command.perform compilation).2 rest

/-- Planning a segment that meets the condition keeps the relation between the
registry and the statements so far. -/
def Keeps (check : SegmentCheck) (relation : Registry → List Statement → Prop) : Prop :=
  ∀ (planner : Planner) (registry next : Registry) (table : String) (segment : Segment)
    (batch : BatchPlan) (statements : List Statement),
    segment.WellFormed → check planner registry table segment = true →
      planner.planSegment registry table segment = .ok (next, batch) →
        relation registry statements → relation next (statements ++ batch.statements)

section Always

variable (planner : Planner)

theorem onSegments_always (table : String) (registry : Registry) (segments : List Segment) :
    always.onSegments planner table registry segments = true := by
  induction segments generalizing registry with
  | nil => rfl
  | cons segment rest ih =>
      rw [onSegments, always, Bool.true_and]
      split
      · exact ih _
      · rfl

theorem onBatches_always (registry : Registry) (batches : List Batch) :
    always.onBatches planner registry batches = true := by
  induction batches generalizing registry with
  | nil => rfl
  | cons batch rest ih =>
      rw [onBatches, onSegments_always, Bool.true_and]
      split
      · exact ih _
      · rfl

theorem onRun_always (compilation : Compilation) (commands : List Command) :
    always.onRun compilation commands = true := by
  induction commands generalizing compilation with
  | nil => rfl
  | cons command rest ih =>
      have hflush : always.onFlush compilation = true := by
        rw [onFlush]
        split
        · rfl
        · exact onBatches_always ..
      rw [onRun, hflush, Bool.or_true, Bool.true_and]
      exact ih _

end Always

namespace Keeps

variable {check : SegmentCheck} {relation : Registry → List Statement → Prop}
  {planner : Planner}

theorem planSegments (hkeeps : check.Keeps relation) {table : String}
    {segments : List Segment} (hwell : ∀ segment ∈ segments, segment.WellFormed)
    {planned result : Registry × BatchPlan} {earlier : List Statement}
    (hcheck : check.onSegments planner table planned.1 segments = true)
    (hplan : planner.planSegments table planned segments = .ok result)
    (hstart : relation planned.1 (earlier ++ planned.2.statements)) :
    relation result.1 (earlier ++ result.2.statements) := by
  induction segments generalizing planned with
  | nil =>
      cases hplan
      exact hstart
  | cons segment rest ih =>
      rw [List.forall_mem_cons] at hwell
      rw [onSegments, Bool.and_eq_true] at hcheck
      obtain ⟨changed, more, hsegment, hrest⟩ := Planner.planSegments_cons_eq_ok.mp hplan
      have hlater : check.onSegments planner table changed rest = true := by
        simpa [hsegment] using hcheck.2
      have hchanged := hkeeps planner planned.1 changed table segment more _ hwell.1 hcheck.1
        hsegment hstart
      rw [List.append_assoc] at hchanged
      exact ih hwell.2 hlater hrest hchanged

theorem plan (hkeeps : check.Keeps relation) {registry next : Registry} {table : String}
    {actions : List Action} {batch : BatchPlan} {earlier : List Statement}
    (hcheck : check.onSegments planner table registry (Segment.cut actions) = true)
    (hplan : planner.plan registry table actions = .ok (next, batch))
    (hstart : relation registry earlier) : relation next (earlier ++ batch.statements) := by
  refine hkeeps.planSegments (Segment.wellFormed_cut actions) hcheck hplan ?_
  rwa [List.append_nil]

theorem planBatches (hkeeps : check.Keeps relation) {batches : List Batch}
    {planned result : Registry × List Statement} {earlier : List Statement}
    (hcheck : check.onBatches planner planned.1 batches = true)
    (hplan : Compilation.planBatches planner planned batches = .ok result)
    (hstart : relation planned.1 (earlier ++ planned.2)) :
    relation result.1 (earlier ++ result.2) := by
  induction batches generalizing planned with
  | nil =>
      cases hplan
      exact hstart
  | cons batch rest ih =>
      rw [onBatches, Bool.and_eq_true] at hcheck
      obtain ⟨changed, more, hbatch, hrest⟩ := Compilation.planBatches_cons_eq_ok.mp hplan
      have hlater : check.onBatches planner changed rest = true := by
        simpa [hbatch] using hcheck.2
      have hchanged := hkeeps.plan hcheck.1 hbatch hstart
      rw [List.append_assoc] at hchanged
      exact ih hlater hrest hchanged

theorem flush (hkeeps : check.Keeps relation) {compilation flushed : Compilation}
    (hcheck : check.onFlush compilation = true) (hflush : compilation.flush = .ok flushed)
    (hstart : relation compilation.registry compilation.statements) :
    relation flushed.registry flushed.statements := by
  obtain ⟨planned, hplan, -, hregistry, -, hstatements, -⟩ := Compilation.flush_cases hflush
  have hbatches : check.onBatches compilation.planner compilation.registry
      compilation.queue.batches = true := by
    simpa [onFlush, hflush] using hcheck
  rw [hregistry, hstatements]
  refine hkeeps.planBatches hbatches hplan ?_
  rwa [List.append_nil]

theorem perform (hkeeps : check.Keeps relation) {compilation : Compilation}
    (command : Command) (hcheck : command.flushes = true → check.onFlush compilation = true)
    (hstart : relation compilation.registry compilation.statements) :
    relation (command.perform compilation).2.registry
      (command.perform compilation).2.statements := by
  rcases command.perform_cases compilation with
    hsame | ⟨table, action, -, -, hnext⟩ | ⟨hflushes, flushed, hflush, hextends⟩
  · rwa [hsame]
  · rw [hnext]
    exact hstart
  · rw [hextends.registry_eq, hextends.statements_eq]
    exact hkeeps.flush (hcheck hflushes) hflush hstart

/-- What every segment keeps, a run keeps whose segments all meet the condition. -/
theorem run (hkeeps : check.Keeps relation) {compilation : Compilation}
    {commands : List Command} (hcheck : check.onRun compilation commands = true)
    (hstart : relation compilation.registry compilation.statements) :
    relation (compilation.run commands).registry (compilation.run commands).statements := by
  induction commands generalizing compilation with
  | nil => exact hstart
  | cons command rest ih =>
      rw [onRun, Bool.and_eq_true] at hcheck
      have hfirst : command.flushes = true → check.onFlush compilation = true := by
        intro hflushes
        simpa [hflushes] using hcheck.1
      exact ih hcheck.2 (hkeeps.perform command hfirst hstart)

/-- What every segment keeps without condition holds after every run. -/
theorem run_always (hkeeps : always.Keeps relation) (hempty : relation .empty [])
    (settings : Settings) (commands : List Command) :
    relation ((Compilation.new settings).run commands).registry
      ((Compilation.new settings).run commands).statements :=
  hkeeps.run (onRun_always _ commands) hempty

end Keeps

/-! ## Conditions that follow from what is declared -/

/-- A condition on segments that rests on a property of the registry, wherever only
certain declarations are made. -/
structure RestsOn (check : SegmentCheck) (holds : Registry → Prop)
    (allowed : Declaration → Prop) : Prop where
  met : ∀ (planner : Planner) (registry : Registry) (table : String) (segment : Segment),
    segment.WellFormed → (∀ action ∈ segment.actions, allowed ⟨table, action⟩) →
      holds registry → check planner registry table segment = true
  kept : ∀ (planner : Planner) (registry next : Registry) (table : String) (segment : Segment)
    (batch : BatchPlan), segment.WellFormed →
      (∀ action ∈ segment.actions, allowed ⟨table, action⟩) →
        planner.planSegment registry table segment = .ok (next, batch) →
          holds registry → holds next

namespace RestsOn

variable {check : SegmentCheck} {holds : Registry → Prop} {allowed : Declaration → Prop}
  {planner : Planner}

theorem onSegments (hrests : check.RestsOn holds allowed) {table : String}
    {segments : List Segment} (hwell : ∀ segment ∈ segments, segment.WellFormed)
    (hallowed : ∀ segment ∈ segments, ∀ action ∈ segment.actions, allowed ⟨table, action⟩)
    {registry : Registry} (hholds : holds registry) :
    check.onSegments planner table registry segments = true := by
  induction segments generalizing registry with
  | nil => rfl
  | cons segment rest ih =>
      rw [List.forall_mem_cons] at hwell hallowed
      rw [SegmentCheck.onSegments,
        hrests.met planner registry table segment hwell.1 hallowed.1 hholds, Bool.true_and]
      split
      next next batch hsegment =>
        exact ih hwell.2 hallowed.2
          (hrests.kept planner registry next table segment batch hwell.1 hallowed.1 hsegment hholds)
      · rfl

theorem planSegments (hrests : check.RestsOn holds allowed) {table : String}
    {segments : List Segment} (hwell : ∀ segment ∈ segments, segment.WellFormed)
    (hallowed : ∀ segment ∈ segments, ∀ action ∈ segment.actions, allowed ⟨table, action⟩)
    {planned result : Registry × BatchPlan} (hholds : holds planned.1)
    (hplan : planner.planSegments table planned segments = .ok result) : holds result.1 := by
  induction segments generalizing planned with
  | nil =>
      cases hplan
      exact hholds
  | cons segment rest ih =>
      rw [List.forall_mem_cons] at hwell hallowed
      obtain ⟨changed, more, hsegment, hrest⟩ := Planner.planSegments_cons_eq_ok.mp hplan
      refine ih hwell.2 hallowed.2 ?_ hrest
      exact hrests.kept planner _ changed table segment more hwell.1 hallowed.1 hsegment hholds

/-- The actions of a batch are those of its segments. -/
theorem allowed_cut {table : String} {actions : List Action}
    (hallowed : ∀ action ∈ actions, allowed ⟨table, action⟩) :
    ∀ segment ∈ Segment.cut actions, ∀ action ∈ segment.actions, allowed ⟨table, action⟩ := by
  intro segment hsegment action haction
  refine hallowed action ?_
  rw [← Segment.flatMap_actions_cut actions]
  exact List.mem_flatMap.mpr ⟨segment, hsegment, haction⟩

theorem onBatches (hrests : check.RestsOn holds allowed) {batches : List Batch}
    (hallowed : ∀ batch ∈ batches, ∀ declaration ∈ batch.declarations, allowed declaration)
    {registry : Registry} (hholds : holds registry) :
    check.onBatches planner registry batches = true := by
  induction batches generalizing registry with
  | nil => rfl
  | cons batch rest ih =>
      rw [List.forall_mem_cons, Batch.declarations, List.forall_mem_map] at hallowed
      have hsegments := allowed_cut hallowed.1
      have hwell := Segment.wellFormed_cut batch.actions
      rw [SegmentCheck.onBatches, hrests.onSegments hwell hsegments hholds, Bool.true_and]
      split
      next next more hbatch =>
        exact ih hallowed.2 (hrests.planSegments hwell hsegments hholds hbatch)
      · rfl

theorem planBatches (hrests : check.RestsOn holds allowed) {batches : List Batch}
    (hallowed : ∀ batch ∈ batches, ∀ declaration ∈ batch.declarations, allowed declaration)
    {planned result : Registry × List Statement} (hholds : holds planned.1)
    (hplan : Compilation.planBatches planner planned batches = .ok result) :
    holds result.1 := by
  induction batches generalizing planned with
  | nil =>
      cases hplan
      exact hholds
  | cons batch rest ih =>
      rw [List.forall_mem_cons, Batch.declarations, List.forall_mem_map] at hallowed
      obtain ⟨changed, more, hbatch, hrest⟩ := Compilation.planBatches_cons_eq_ok.mp hplan
      have hwell := Segment.wellFormed_cut batch.actions
      exact ih hallowed.2 (hrests.planSegments hwell (allowed_cut hallowed.1) hholds hbatch) hrest

/-- Where a run makes only such declarations, all that it compiles meets the condition. -/
theorem onRun (hrests : check.RestsOn holds allowed) {compilation : Compilation}
    (hholds : holds compilation.registry)
    (hwaiting : ∀ batch ∈ compilation.queue.batches,
      ∀ declaration ∈ batch.declarations, allowed declaration)
    {commands : List Command}
    (hallowed : ∀ table action, .enqueue table action ∈ commands → allowed ⟨table, action⟩) :
    check.onRun compilation commands = true := by
  induction commands generalizing compilation with
  | nil => rfl
  | cons command rest ih =>
      have hlater : ∀ table action, .enqueue table action ∈ rest → allowed ⟨table, action⟩ :=
        fun table action hmem => hallowed table action (List.mem_cons_of_mem command hmem)
      have hflush : check.onFlush compilation = true := by
        rw [onFlush]
        split
        · rfl
        · exact hrests.onBatches hwaiting hholds
      rw [SegmentCheck.onRun, hflush, Bool.or_true, Bool.true_and]
      rcases command.perform_cases compilation with
        hsame | ⟨table, action, rfl, -, hnext⟩ | ⟨-, flushed, hflushed, hextends⟩
      · rw [hsame]
        exact ih hholds hwaiting hlater
      · rw [hnext]
        have hnew : allowed ⟨table, action⟩ := hallowed table action List.mem_cons_self
        have hpushed : ∀ batch ∈ (compilation.queue.declare ⟨table, action⟩).batches,
            ∀ declaration ∈ batch.declarations, allowed declaration := by
          refine Queue.forall_batches_declare ?_ (fun batch hmem haccepts => ?_) hwaiting
          · rw [Batch.declarations_single]
            exact List.forall_mem_singleton.mpr hnew
          · rw [Batch.declarations_append, (Batch.accepts_iff.mp haccepts).2]
            exact List.forall_mem_append.mpr
              ⟨hwaiting batch hmem, List.forall_mem_singleton.mpr hnew⟩
        exact ih hholds hpushed hlater
      · obtain ⟨planned, hplan, -, hregistry, hqueue, -⟩ := Compilation.flush_cases hflushed
        refine ih ?_ ?_ hlater
        · rw [hextends.registry_eq, hregistry]
          exact hrests.planBatches hwaiting hholds hplan
        · rw [hextends.queue_eq, hqueue]
          exact fun batch hmem => absurd hmem List.not_mem_nil

end RestsOn

end SegmentCheck

end SchemaMigration
