import SchemaMigration.Proofs.CopySources
import SchemaMigration.Proofs.SqlText

/-!
# The columns that a rebuild copies

An insertion has to list a column and to select as many expressions as it lists columns.
A rebuild lists the columns that have data in the stored table or that something fills,
so its lists always agree in length.  They are empty exactly if every column that is left
was added in the same batch with nothing to fill it; a batch that replaces all columns of
a table in this way is accepted.
-/

namespace SchemaMigration

/-- Whether a column is copied after the actions, which are listed from the last to the
first: it began as a stored column, or its parameters say what fills it. -/
def Action.isCopied (stored : Table) (actions : List Action) (name : String) : Bool :=
  (originOf actions name).isSome || (fillFromOf stored actions name).isSome ||
    (coalesceOf stored actions name).isSome

theorem Action.isCopied_eq_false_iff {stored : Table} {actions : List Action} {name : String} :
    isCopied stored actions name = false ↔
      originOf actions name = none ∧ fillFromOf stored actions name = none ∧
        coalesceOf stored actions name = none := by
  rw [isCopied, Bool.or_eq_false_iff, Bool.or_eq_false_iff, Option.isSome_eq_false_iff,
    Option.isSome_eq_false_iff, Option.isSome_eq_false_iff, Option.isNone_iff_eq_none,
    Option.isNone_iff_eq_none, Option.isNone_iff_eq_none, and_assoc]

namespace Rebuild

variable {rebuild : Rebuild}

theorem Planned.names_copies (hplanned : rebuild.Planned) :
    rebuild.target.copies.map Prod.fst = rebuild.target.columnNames.filter
      (Action.isCopied rebuild.stored rebuild.actions.reverse) := by
  have htraced := hplanned.traced
  rw [Table.names_copies, Table.columnNames, List.filter_map]
  refine congrArg _ (List.filter_congr fun entry hmem => ?_)
  rw [TableColumn.isSome_copyExpression?, htraced.source_eq entry hmem,
    htraced.fillFrom?_eq hmem, htraced.coalesce?_eq hmem]
  rfl

/-- The text that copies the rows is read as two lists of one length. -/
theorem exists_read?_copy (rebuild : Rebuild) :
    ∃ expressions : List Sql.Expression,
      Sql.read? rebuild.copy.sql = some (.copyRows rebuild.target.scratchName
          (rebuild.target.copies.map Prod.fst) expressions rebuild.stored.name) ∧
        expressions.length = (rebuild.target.copies.map Prod.fst).length := by
  refine ⟨_, rebuild.copy.read?_sql, ?_⟩
  rw [List.length_map, List.length_map]

end Rebuild

namespace Compilation

/-- Whatever was run before, the rebuilds of a batch copy rows in their order.  Each is read
as an insertion that selects one expression for each column it lists.  It lists the
columns of the new shape that are copied, and none exactly if each of them was added by
the rebuild with nothing to fill it. -/
theorem lists_copies (settings : Settings) (commands : List Command) {planner : Planner}
    {table : String} {actions : List Action} {next : Registry} {batch : BatchPlan}
    (hplan : planner.plan ((new settings).run commands).registry table actions =
      .ok (next, batch)) :
    let rebuilds := planner.rebuilds table ((new settings).run commands).registry
      (Segment.cut actions)
    batch.statements.filter Statement.isCopy = rebuilds.map Rebuild.copy ∧
      ∀ rebuild ∈ rebuilds, ∃ columns expressions,
        Sql.read? rebuild.copy.sql = some (.copyRows rebuild.target.scratchName columns
            expressions rebuild.stored.name) ∧
          expressions.length = columns.length ∧
          columns = rebuild.target.columnNames.filter
            (Action.isCopied rebuild.stored rebuild.actions.reverse) ∧
          (columns = [] ↔ ∀ name ∈ rebuild.target.columnNames,
            Action.originOf rebuild.actions.reverse name = none ∧
              Action.fillFromOf rebuild.stored rebuild.actions.reverse name = none ∧
              Action.coalesceOf rebuild.stored rebuild.actions.reverse name = none) := by
  refine ⟨Planner.filter_isCopy_planSegments hplan, fun rebuild hmem => ?_⟩
  have hplanned := Planner.planned_of_mem_rebuilds (settled_run settings commands)
    (Segment.wellFormed_cut actions) hmem
  obtain ⟨expressions, hread, hlength⟩ := rebuild.exists_read?_copy
  refine ⟨_, expressions, hread, hlength, hplanned.names_copies, ?_⟩
  rw [hplanned.names_copies, List.filter_eq_nil_iff]
  simp only [Bool.not_eq_true, Action.isCopied_eq_false_iff]

/-- Replaces the only column of a table. -/
def replacing : List Action :=
  [.addColumn { name := "label", type := .text } none, .dropColumn "name"]

/-- Where the engine cannot drop columns, the batch is planned as a rebuild that lists no
column to copy, although the table has one. -/
theorem lists_copies_replacing :
    ∃ next batch rebuild,
      Planner.plan ⟨"sqlite", .empty, false⟩ ((new {}).run named).registry "people"
          replacing = .ok (next, batch) ∧
        batch.statements.filter Statement.isCopy = [Rebuild.copy rebuild] ∧
        rebuild.target.columnNames = ["label"] ∧
        rebuild.copy.sql = "INSERT INTO \"people_tmp\" () SELECT  FROM \"people\";" ∧
        ∃ expressions, Sql.read? rebuild.copy.sql =
          some (.copyRows "people_tmp" [] expressions "people") := by
  have hplanned : ((Planner.plan ⟨"sqlite", .empty, false⟩
      ((new {}).run named).registry "people" replacing).toOption).isSome = true := by decide
  obtain ⟨⟨next, batch⟩, hresult⟩ := Option.isSome_iff_exists.mp hplanned
  have hplan := toOption_eq_some_iff.mp hresult
  have hshape : (Planner.rebuilds ⟨"sqlite", .empty, false⟩ "people"
      ((new {}).run named).registry (Segment.cut replacing)).map (fun rebuild =>
        (rebuild.target.columnNames, rebuild.copy.sql, rebuild.target.scratchName,
          rebuild.stored.name, rebuild.target.columnNames.filter
            (Action.isCopied rebuild.stored rebuild.actions.reverse))) =
      [(["label"], "INSERT INTO \"people_tmp\" () SELECT  FROM \"people\";", "people_tmp",
        "people", [])] := by decide
  obtain ⟨rebuild, hrebuilds, hrebuild⟩ := List.map_eq_singleton_iff.mp hshape
  simp only [Prod.mk.injEq] at hrebuild
  obtain ⟨hnames, htext, hscratch, hstored, hcopied⟩ := hrebuild
  obtain ⟨hcopies, hlists⟩ := lists_copies {} named hplan
  rw [hrebuilds] at hcopies hlists
  obtain ⟨columns, expressions, hread, -, hcolumns, -⟩ := hlists rebuild List.mem_cons_self
  rw [hcolumns, hcopied, hscratch, hstored] at hread
  exact ⟨next, batch, rebuild, hplan, hcopies, hnames, htext, expressions, hread⟩

end Compilation

end SchemaMigration
