import SchemaMigration.Sql.Statement

/-!
# Rebuilding a table

What cannot be altered in place is rebuilt: a scratch table is created in the
final shape, the rows are copied into it, the stored table is dropped and the
scratch table takes the final name.
-/

namespace SchemaMigration

namespace TableColumn

def fillFrom? (entry : TableColumn) : Option String := entry.params.bind (·.fillFrom)

def coalesce? (entry : TableColumn) : Option Literal := entry.params.bind (·.coalesce)

/-- What the copy reads for a column.  A column added in the batch has nothing
of its own to read and is left to its default unless its parameters say what
fills it.  A renamed column reads its old name, which yields to a column to
fill from only when a fallback is given as well. -/
def copyExpression? (entry : TableColumn) : Option CopyExpression :=
  match entry.origin, entry.fillFrom?, entry.coalesce? with
  | .added, some source, some fallback => some (.coalesce source fallback)
  | .added, some source, none => some (.column source)
  | .added, none, some fallback => some (.literal fallback)
  | .added, none, none => none
  | _, fillFrom, some fallback => some (.coalesce (fillFrom.getD entry.sourceName) fallback)
  | .renamed source, _, none => some (.column source)
  | .kept, fillFrom, none => some (.column (fillFrom.getD entry.name))

end TableColumn

namespace Table

/-- The name of the table that stands in while a table is rebuilt. -/
def scratchName (table : Table) : String := table.name ++ "_tmp"

/-- The columns that are copied, each with what it reads. -/
def copies (table : Table) : List (String × CopyExpression) :=
  table.entries.filterMap fun entry =>
    entry.copyExpression?.map fun expression => (entry.name, expression)

/-- The statements that rebuild the stored table `source` as `table`. -/
def rebuild (source : String) (table : Table) : List Statement :=
  [.createTable table.scratchName table.columns,
   .copyRows table.scratchName table.copies source,
   .dropTable source,
   .renameTable table.scratchName table.name]

end Table

end SchemaMigration
