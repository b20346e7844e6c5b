import SchemaMigration.Proofs.SettledTables

/-!
# What statements do to rows

A store holds the rows of every table.  Beside its rows a table has a blank row,
which gives each column what it holds where an insertion leaves it out.  A
literal is evaluated to a value or to NULL; how this is done is left open.
-/

namespace SchemaMigration

variable {Value : Type}

/-- A cell of a row: the name of its column and its value, none being NULL. -/
structure Cell (Value : Type) where
  name : String
  value : Option Value
deriving DecidableEq

instance : Named (Cell Value) where
  name := Cell.name
  withName name cell := { cell with name }

abbrev Row (Value : Type) := List (Cell Value)

/-- What a row has in the column of a name. -/
def Row.value? (row : Row Value) (name : String) : Option (Option Value) :=
  (row.find? (·.name = name)).map (·.value)

structure Content (Value : Type) where
  blank : Row Value
  rows : List (Row Value)
deriving DecidableEq

/-- The content of each table that exists. -/
abbrev Store (Value : Type) := String → Option (Content Value)

section Semantics

variable (evaluate : Literal → Option Value)

/-- What a column holds that is given no value: its default, which identity and
foreign columns are defined without. -/
def Column.initial (column : Column) : Option Value :=
  match column.type with
  | .identity | .foreign => none
  | .integer | .text | .real | .blob => column.default.bind evaluate

def Column.blankCell (column : Column) : Cell Value := ⟨column.name, column.initial evaluate⟩

/-- What an expression gives on a row, if the row has the columns that it reads. -/
def CopyExpression.eval (row : Row Value) : CopyExpression → Option (Option Value)
  | column name => Row.value? row name
  | literal value => some (evaluate value)
  | coalesce name fallback =>
      (Row.value? row name).map fun value => value.or (evaluate fallback)

/-- A row copied: the columns of a blank row, those that the copy leaves out as
they are. -/
def Row.copy (blank : Row Value) (copies : List (String × CopyExpression)) (row : Row Value) :
    Option (Row Value) :=
  blank.mapM fun cell =>
    match copies.lookup cell.name with
    | some expression => (expression.eval evaluate row).map (Cell.mk cell.name)
    | none => some cell

/-- Changes the blank row and every row alike. -/
def Content.alter (change : Row Value → Option (Row Value)) (content : Content Value) :
    Option (Content Value) := do
  let blank ← change content.blank
  let rows ← content.rows.mapM change
  pure ⟨blank, rows⟩

def Store.alter (store : Store Value) (table : String)
    (change : Row Value → Option (Row Value)) : Option (Store Value) :=
  ((store table).bind (Content.alter change)).map fun content =>
    Function.update store table (some content)

namespace Statement

/-- What a statement does to the rows of a store.  An added column is given its
default in every row.  Copying without any column is no statement of SQL. -/
def execRows : Statement → Store Value → Option (Store Value)
  | createTable name columns, store =>
      if (store name).isSome then none
      else some (Function.update store name (some ⟨columns.map (Column.blankCell evaluate), []⟩))
  | dropTable name, store =>
      if (store name).isSome then some (Function.update store name none) else none
  | renameTable old new, store =>
      (store old).bind fun content =>
        if (store new).isSome then none
        else some (Function.update (Function.update store old none) new (some content))
  | addColumn table column, store =>
      Store.alter store table (Columns.add (column.blankCell evaluate))
  | dropColumn table column, store => Store.alter store table (Columns.drop column)
  | renameColumn table old new, store => Store.alter store table (Columns.rename old new)
  | copyRows target copies source, store =>
      if copies.isEmpty then none
      else do
        let into ← store target
        let content ← store source
        let copied ← content.rows.mapM (Row.copy evaluate into.blank copies)
        pure (Function.update store target (some { into with rows := into.rows ++ copied }))

def execRowsAll (statements : List Statement) (store : Store Value) : Option (Store Value) :=
  statements.foldlM (fun store statement => statement.execRows evaluate store) store

@[simp]
theorem execRowsAll_cons (first : Statement) (rest : List Statement) (store : Store Value) :
    execRowsAll evaluate (first :: rest) store =
      (first.execRows evaluate store).bind (execRowsAll evaluate rest) := rfl

end Statement

/-- The content of a table with the given columns whose rows hold the given values. -/
def Content.holding (columns : List Column) (valuations : List (String → Option Value)) :
    Content Value where
  blank := columns.map (Column.blankCell evaluate)
  rows := valuations.map fun values =>
    columns.map fun column => ⟨column.name, values column.name⟩

/-- The rows of the table that an alteration leaves, once its statements are
executed. -/
def Planner.rowsAfter (planner : Planner) (registry : Registry) (source : String)
    (actions : List Action) (store : Store Value) : Option (List (Row Value)) := do
  let (_, batch) ← (planner.planAlteration registry source actions).toOption
  let final ← Statement.execRowsAll evaluate batch.statements store
  (final batch.table).map (·.rows)

end Semantics

end SchemaMigration
