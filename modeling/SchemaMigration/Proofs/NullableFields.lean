import SchemaMigration.Proofs.CopySources
import SchemaMigration.Proofs.Execution
import SchemaMigration.Proofs.KeyedColumns

/-!
# Nullable fields

Whether a field of a row type is optional is decided from the flags of its column, and
whether the database keeps NULL out of the column by the words that define it there.
The two are decided apart, and differ for foreign columns that are flagged as not NULL.

What a run has written for a column is followed through all its statements.  A rebuild
is taken as one step, so that it is no matter whether its scratch name was free.
-/

namespace SchemaMigration

namespace RowTypes

/-- Whether the type of a field is wrapped in an option. -/
def IsOptional (column : Column) : Prop :=
  ∃ inner, fieldType column = "Option<" ++ inner ++ ">"

theorem baseType_ne (type : ColumnType) (inner : String) :
    baseType type ≠ "Option<" ++ inner ++ ">" := by
  intro hsame
  have hhead := congrArg (fun text => text.toList.head?) hsame
  rw [String.toList_append, String.toList_append] at hhead
  cases type <;> cases hhead

theorem isOptional_iff (column : Column) : IsOptional column ↔ isPlain column = false := by
  rw [IsOptional, fieldType]
  cases isPlain column with
  | true => exact iff_of_false (fun ⟨inner, hinner⟩ => baseType_ne _ _ hinner) (by decide)
  | false => exact iff_of_true ⟨_, rfl⟩ rfl

/-- Whether a text stands in another. -/
def StandsIn (part text : String) : Prop := ∃ before after, text = before ++ part ++ after

theorem standsIn_self (text : String) : StandsIn text text :=
  ⟨"", "", by rw [String.empty_append, String.append_empty]⟩

theorem StandsIn.trans {part middle text : String} (hpart : StandsIn part middle)
    (hmiddle : StandsIn middle text) : StandsIn part text := by
  obtain ⟨before, after, rfl⟩ := hpart
  obtain ⟨head, foot, rfl⟩ := hmiddle
  exact ⟨head ++ before, after ++ foot, by simp only [String.append_assoc]⟩

section StandsIn

variable {part text : String} (hpart : StandsIn part text)
include hpart

theorem StandsIn.behind (head : String) : StandsIn part (head ++ text) := by
  obtain ⟨before, after, rfl⟩ := hpart
  exact ⟨head ++ before, after, by simp only [String.append_assoc]⟩

theorem StandsIn.before (foot : String) : StandsIn part (text ++ foot) := by
  obtain ⟨before, after, rfl⟩ := hpart
  exact ⟨before, after ++ foot, String.append_assoc⟩

theorem StandsIn.among {texts : List String} (hmem : text ∈ texts) :
    StandsIn part (String.join texts) := by
  obtain ⟨earlier, later, rfl⟩ := List.append_of_mem hmem
  rw [String.join_append, String.join_cons]
  exact (hpart.before (String.join later)).behind (String.join earlier)

end StandsIn

theorem field_standsIn {table : Table} {column : Column} (hmem : column ∈ table.columns) :
    StandsIn (field column) (declaration table) :=
  ((standsIn_self _).among (List.mem_map_of_mem hmem)).behind _ |>.before _

theorem declaration_standsIn {registry : Registry} {table : Table}
    (hmem : table ∈ registry.tables) : StandsIn (declaration table) (document registry) :=
  ((standsIn_self _).behind "\n" |>.among (List.mem_map.mpr ⟨table, hmem, rfl⟩)).behind _

end RowTypes

namespace StoredColumn

/-- Whether the words that define a column in the database keep NULL out of it. -/
def RejectsNull (column : StoredColumn) : Prop :=
  column.attributes = ["INTEGER PRIMARY KEY AUTOINCREMENT"] ∨ "NOT NULL" ∈ column.attributes

theorem rejectsNull_ofColumn (column : Column) :
    (ofColumn column).RejectsNull ↔
      column.isIdentity = true ∨ column.notNull = true ∧ column.isForeign = false := by
  rw [RejectsNull, ofColumn, Column.isIdentity, Column.isForeign]
  by_cases hidentity : column.type = .identity
  · simp [Column.attributes, hidentity]
  by_cases hforeign : column.type = .foreign
  · simp [Column.attributes, hforeign, ColumnType.sql]
  have hwords : column.attributes ≠ ["INTEGER PRIMARY KEY AUTOINCREMENT"] := by
    intro hsame
    have hmem : column.type.sql ∈ column.attributes :=
      (Column.mem_attributes hidentity hforeign _).mpr (Or.inl rfl)
    rw [hsame, List.mem_singleton] at hmem
    cases htype : column.type <;> rw [htype] at hmem <;> exact absurd hmem (by decide)
  simp [hwords, Column.notNull_mem_attributes hidentity hforeign, hidentity, hforeign]

/-- A field is plain where the database keeps NULL out of its column, and beyond that for
foreign columns that are flagged as not NULL. -/
theorem not_isOptional_iff (column : Column) :
    ¬RowTypes.IsOptional column ↔
      (ofColumn column).RejectsNull ∨ column.isForeign = true ∧ column.notNull = true := by
  rw [RowTypes.isOptional_iff, RowTypes.isPlain, rejectsNull_ofColumn]
  cases column.isIdentity <;> cases column.notNull <;> cases column.isForeign <;> simp

theorem not_rejectsNull_of_isForeign {column : Column} (hforeign : column.isForeign = true) :
    ¬(ofColumn column).RejectsNull := by
  have htype : column.type = .foreign := by simpa [Column.isForeign] using hforeign
  simp [rejectsNull_ofColumn, Column.isIdentity, Column.isForeign, htype]

end StoredColumn

/-- Statements that lead from one database to another, each rebuild taken as one step
that puts the new shape of a table into the place of the stored one. -/
inductive Replays : List Statement → Database → Database → Prop
  | nil (database : Database) : Replays [] database database
  | step {statement : Statement} {rest : List Statement} {database middle final : Database}
      (plain : statement.isCopy = false) (exec : statement.exec database = some middle)
      (later : Replays rest middle final) : Replays (statement :: rest) database final
  | rebuild {source : String} {target : Table} {rest : List Statement}
      {database final : Database} (held : (database source).isSome = true)
      (free : target.name = source ∨ database target.name = none)
      (later : Replays rest ((database.set source none).set target.name
        (some (target.columns.map StoredColumn.ofColumn))) final) :
      Replays (target.rebuild source ++ rest) database final

namespace Replays

variable {statements : List Statement} {database middle final : Database}

theorem append {later : List Statement} (hfirst : Replays statements database middle)
    (hlater : Replays later middle final) : Replays (statements ++ later) database final := by
  induction hfirst with
  | nil database => exact hlater
  | step hplain hexec _ ih => exact .step hplain hexec (ih hlater)
  | rebuild hheld hfree _ ih =>
      rw [List.append_assoc]
      exact .rebuild hheld hfree (ih hlater)

/-- Statements that are executed and copy no rows. -/
theorem of_execAll (hplain : ∀ statement ∈ statements, statement.isCopy = false)
    (hexec : Statement.execAll statements database = some final) :
    Replays statements database final := by
  induction statements generalizing database with
  | nil =>
      cases hexec
      exact .nil final
  | cons first rest ih =>
      rw [List.forall_mem_cons] at hplain
      obtain ⟨middle, hfirst, hrest⟩ := Option.bind_eq_some_iff.mp hexec
      exact .step hplain.1 hfirst (ih hplain.2 hrest)

theorem not_copyRows {into source : String} {copies : List (String × CopyExpression)}
    {rest : List Statement} : ¬Replays (.copyRows into copies source :: rest) database final := by
  intro hreplays
  cases hreplays with
  | step hplain _ _ => cases hplain

/-- What begins with a rebuild has been led through it. -/
theorem of_rebuild {source : String} {target : Table} {rest : List Statement}
    (hreplays : Replays statements database final)
    (hstatements : statements = target.rebuild source ++ rest) :
    Replays rest ((database.set source none).set target.name
      (some (target.columns.map StoredColumn.ofColumn))) final := by
  -- Another table may have the same rebuild, but then it has the same name and columns.
  cases hreplays with
  | nil => cases hstatements
  | step hplain hexec hlater =>
      cases hstatements
      exact absurd hlater not_copyRows
  | rebuild hheld hfree hlater =>
      simp only [Table.rebuild, List.cons_append, List.nil_append, List.cons.injEq,
        Statement.createTable.injEq, Statement.copyRows.injEq, Statement.renameTable.injEq]
        at hstatements
      obtain ⟨⟨-, hcolumns⟩, ⟨-, -, hsource⟩, -, ⟨-, hname⟩, hrest⟩ := hstatements
      rw [← hsource, ← hname, ← hcolumns, ← hrest]
      exact hlater

/-- Statements lead to one database at most. -/
theorem unique (hfirst : Replays statements database middle)
    (hsecond : Replays statements database final) : middle = final := by
  induction hfirst with
  | nil database =>
      cases hsecond with
      | nil => rfl
  | step hplain hexec hlater ih =>
      cases hsecond with
      | step _ hexec' hlater' =>
          rw [hexec] at hexec'
          cases hexec'
          exact ih hlater'
      | rebuild _ _ _ => exact absurd hlater not_copyRows
  | rebuild _ _ _ ih => exact ih (hsecond.of_rebuild rfl)

end Replays

namespace Planner

variable {planner : Planner} {registry next : Registry} {source : String} {batch : BatchPlan}

/-- An alteration leads to its outcome whether or not a scratch name is free: what is not
planned as a rebuild asks for none. -/
theorem replays_planAlteration {actions : List Action} (halters : Segment.Alters actions)
    (hplan : planner.planAlteration registry source actions = .ok (next, batch)) :
    Replays batch.statements registry.schema.stored next.schema.stored := by
  obtain ⟨stored, target, hfind, happly, -, hplace, hbatch⟩ := planAlteration_cases hplan
  rcases hbatch with ⟨-, rfl⟩ | ⟨hdirect, statements, hstatements, rfl⟩
  · have hheld : (registry.schema.stored source).isSome = true := by
      rw [Schema.stored, Catalog.isSome_mapColumns, Registry.isSome_schema,
        Registry.contains_of_find? hfind]
    have hfree := (Registry.name_of_applyAll halters hfind happly).imp_right fun hunused =>
      StoredColumn.semantics.seen_eq_none (Registry.schema_eq_none hunused)
    have hplaced : (registry.schema.place source target).stored =
        (registry.schema.stored.set source none).set target.name
          (some (target.columns.map StoredColumn.ofColumn)) :=
      StoredColumn.semantics.seen_place StoredColumn.ofColumn_retarget registry.schema source target
    have hrebuild := Replays.rebuild hheld hfree (.nil _)
    rw [List.append_nil] at hrebuild
    rw [hplace, hplaced]
    exact hrebuild
  · have hscratch : planner.scratchFree registry source (.alter actions) = true := by
      rw [scratchFree, SegmentCheck.ofAlteration_alter _ hfind happly, hdirect]
      rfl
    have hexec := StoredColumn.semantics.execAll_planAlteration StoredColumn.ofColumn_retarget
      halters hscratch hplan
    refine Replays.of_execAll ?_ hexec
    simpa using filter_isCopy_direct hstatements

theorem replays_planSegment {segment : Segment} (hwell : segment.WellFormed)
    (hplan : planner.planSegment registry source segment = .ok (next, batch)) :
    Replays batch.statements registry.schema.stored next.schema.stored := by
  cases segment with
  | alter actions => exact replays_planAlteration hwell hplan
  | create columns =>
      have hcopies := filter_isCopy_planSegment hplan
      refine Replays.of_execAll ?_ (StoredColumn.semantics.execAll_planCreation hplan)
      simpa [rebuild?] using hcopies
  | drop =>
      have hcopies := filter_isCopy_planSegment hplan
      refine Replays.of_execAll ?_ (StoredColumn.semantics.execAll_planDrop hplan)
      simpa [rebuild?] using hcopies

end Planner

namespace Compilation

/-- The statements of a run lead from an empty database to the tables of the registry. -/
theorem replays_run (settings : Settings) (commands : List Command) :
    Replays ((new settings).run commands).statements Catalog.empty
      ((new settings).run commands).registry.schema.stored := by
  have hkeeps : SegmentCheck.always.Keeps fun registry statements =>
      Replays statements Catalog.empty registry.schema.stored := by
    intro planner registry next table segment batch statements hwell _ hplan hreplays
    exact hreplays.append (Planner.replays_planSegment hwell hplan)
  exact hkeeps.run_always (.nil _) settings commands

/-- The document of row types that a run gives in the end.  Its tables are those that the
statements of the run lead to, column by column, with a line for each column.  A field is
plain exactly if the database keeps NULL out of its column, or if the column is a foreign
one that is flagged as not NULL, where the database does not. -/
theorem fields_run (settings : Settings) (commands : List Command) {text : String}
    {final : Compilation}
    (hreply : Command.rowTypes.attempt ((new settings).run commands) =
      .ok (.document text, final)) :
    text = RowTypes.document final.registry ∧
      ∃ database, (∀ other, Replays final.statements Catalog.empty other ↔ other = database) ∧
        ((new settings).scratchFreeRun (commands ++ [.rowTypes]) = true →
          Step.execAll final.allSteps Catalog.empty = some database) ∧
        ∀ table ∈ final.registry.tables, RowTypes.StandsIn (RowTypes.declaration table) text ∧
          ∃ stored, database table.name = some stored ∧
          List.Forall₂ (fun column held => held.name = column.name ∧
            RowTypes.StandsIn (RowTypes.field column) (RowTypes.declaration table) ∧
            (¬RowTypes.IsOptional column ↔
              held.RejectsNull ∨ column.isForeign = true ∧ column.notNull = true) ∧
            (column.isForeign = true → ¬held.RejectsNull)) table.columns stored := by
  have haccepted := hreply
  rw [Command.attempt_eq] at haccepted
  obtain ⟨⟨document, flushed⟩, htypes, hpair⟩ := bind_eq_ok_iff.mp haccepted
  cases hpair
  rw [rowTypes_eq] at htypes
  obtain ⟨flushed, hflush, hpair⟩ := bind_eq_ok_iff.mp htypes
  cases hpair
  have hfinal : (new settings).run (commands ++ [.rowTypes]) = final := by
    rw [run_concat, Command.perform_eq, hreply]
  have hreplays := replays_run settings (commands ++ [.rowTypes])
  have hdistinct := (coherent_run settings (commands ++ [.rowTypes])).distinct
  rw [hfinal] at hreplays hdistinct
  refine ⟨rfl, final.registry.schema.stored, fun other => ?_, fun hscratch => ?_, ?_⟩
  · exact ⟨fun hother => hother.unique hreplays, fun hsame => hsame ▸ hreplays⟩
  · have hstep := inStep_run (inStep_new settings) hscratch
    rw [hfinal] at hstep
    rw [Step.execAll_eq]
    exact hstep
  · intro table hmem
    have hfind : final.registry.find? table.name = some table :=
      find?_eq_some_of_nodup hdistinct hmem
    refine ⟨RowTypes.declaration_standsIn hmem, table.columns.map StoredColumn.ofColumn, ?_, ?_⟩
    · rw [Schema.stored, Catalog.mapColumns, Registry.schema, hfind]
      rfl
    · rw [List.forall₂_map_right_iff, List.forall₂_same]
      exact fun column hcolumn => ⟨rfl, RowTypes.field_standsIn hcolumn,
        StoredColumn.not_isOptional_iff column, StoredColumn.not_rejectsNull_of_isForeign⟩

/-- A reference that is flagged as not NULL. -/
def membership : Column :=
  { name := "species", type := .foreign, notNull := true, references := some "species" }

/-- A run that creates a table with the reference. -/
def belonging : List Command :=
  [.start,
    .enqueue "species" (.createTable [{ name := "id", type := .identity }]),
    .enqueue "people" (.createTable [{ name := "id", type := .identity }, membership])]

/-- The field is plain, and the database takes NULL for its column. -/
theorem plain_membership :
    ∃ text final database stored held,
      Command.rowTypes.attempt ((new {}).run belonging) = .ok (.document text, final) ∧
        RowTypes.StandsIn (RowTypes.field membership) text ∧
        Replays final.statements Catalog.empty database ∧ database "people" = some stored ∧
        held ∈ stored ∧ held.name = membership.name ∧
        ¬RowTypes.IsOptional membership ∧ ¬held.RejectsNull := by
  have hflushed : ((new {}).run belonging).flush.toOption.map (·.registry.tables) =
      some [.fresh "species" [{ name := "id", type := .identity }],
        .fresh "people" [{ name := "id", type := .identity }, membership]] := by decide
  obtain ⟨final, hflush, htables⟩ := Option.map_eq_some_iff.mp hflushed
  have hreply : Command.rowTypes.attempt ((new {}).run belonging) =
      .ok (.document (RowTypes.document final.registry), final) := by
    simp only [Command.attempt_eq, rowTypes_eq, toOption_eq_some_iff.mp hflush]
    rfl
  obtain ⟨-, database, hdatabase, -, hall⟩ := fields_run {} belonging hreply
  obtain ⟨hdeclared, stored, hstored, hcolumns⟩ :=
    hall (.fresh "people" [{ name := "id", type := .identity }, membership]) (by simp [htables])
  cases hcolumns with
  | cons _ hrest =>
    cases hrest with
    | cons hheld _ =>
      obtain ⟨hname, hfield, hplain, hrejects⟩ := hheld
      exact ⟨_, final, database, _, _, hreply, hfield.trans hdeclared,
        (hdatabase database).mpr rfl, hstored, List.mem_cons_of_mem _ List.mem_cons_self, hname,
        hplain.mpr (.inr ⟨rfl, rfl⟩), hrejects rfl⟩

end Compilation

end SchemaMigration
