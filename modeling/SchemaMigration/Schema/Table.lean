import SchemaMigration.Error
import SchemaMigration.Schema.Column

/-!
# Tracked tables

A tracked table holds its columns in order.  While a batch of changes is being
planned, each column also records where its data lies in the stored table, so
that a rebuild can copy it.
-/

namespace SchemaMigration

/-- Where the data of a column lies in the stored table. -/
inductive Origin
  | kept
  | renamed (source : String)
  | added
deriving DecidableEq

/-- A column of a tracked table with its origin and its pending copy
parameters. -/
structure TableColumn where
  column : Column
  params : Option CopyParams := none
  origin : Origin := .kept
deriving DecidableEq

namespace TableColumn

def name (entry : TableColumn) : String := entry.column.name

/-- The name of the column in the stored table, following renames. -/
def sourceName (entry : TableColumn) : String :=
  match entry.origin with
  | .renamed source => source
  | .kept | .added => entry.name

/-- The column under a new name, its data staying where it lies. -/
def rename (entry : TableColumn) (new : String) : TableColumn :=
  { entry with
    column := { entry.column with name := new }
    origin := match entry.origin with
      | .kept => .renamed entry.name
      | .renamed source => .renamed source
      | .added => .added }

end TableColumn

structure Table where
  name : String
  entries : List TableColumn
deriving DecidableEq

namespace Table

def columns (table : Table) : List Column := table.entries.map (·.column)

def columnNames (table : Table) : List String := table.entries.map (·.name)

def find? (table : Table) (column : String) : Option TableColumn :=
  table.entries.find? (·.name = column)

def column? (table : Table) (column : String) : Option Column :=
  (table.find? column).map (·.column)

/-- The first column whose name an earlier column already has. -/
def firstRepeated? (seen : List String) : List Column → Option String
  | [] => none
  | column :: rest =>
      if column.name ∈ seen then some column.name
      else firstRepeated? (column.name :: seen) rest

/-- A table with the given columns, whose names must differ. -/
def ofColumns (name : String) (columns : List Column) : Except MigrationError Table :=
  match firstRepeated? [] columns with
  | some column => .error (.columnExists name column)
  | none => .ok { name, entries := columns.map fun column => { column } }

/-- The name of a column in the stored table, following renames. -/
def sourceName (table : Table) (column : String) : String :=
  match table.find? column with
  | some entry => entry.sourceName
  | none => column

/-- Applies `change` to the first column of a name. -/
def modify (table : Table) (column : String) (change : TableColumn → TableColumn) : Table :=
  { table with
    entries := table.entries.modify (table.entries.findIdx (·.name = column)) change }

/-- Appends a column. -/
def addColumn (table : Table) (column : Column) (params : Option CopyParams) :
    Except MigrationError Table :=
  match table.find? column.name with
  | some _ => .error (.columnExists table.name column.name)
  | none =>
      .ok { table with entries := table.entries ++ [{ column, params, origin := .added }] }

/-- Replaces the definition of a column, its copy parameters, or both.  The
column keeps its place and its name. -/
def changeColumn (table : Table) (name : String) (definition : Option Column)
    (params : Option CopyParams) : Except MigrationError Table :=
  match table.find? name with
  | none => .error (.columnNotFound table.name name)
  | some _ =>
      .ok (table.modify name fun entry =>
        { entry with
          column := match definition with
            | some column => { column with name }
            | none => entry.column
          params := params <|> entry.params })

/-- Removes the first column of a name. -/
def dropColumn (table : Table) (name : String) : Except MigrationError Table :=
  match table.find? name with
  | none => .error (.columnNotFound table.name name)
  | some _ => .ok { table with entries := table.entries.eraseP (·.name = name) }

/-- Renames a column in place. -/
def renameColumn (table : Table) (old new : String) : Except MigrationError Table :=
  match table.find? new with
  | some _ => .error (.columnExists table.name new)
  | none =>
      match table.find? old with
      | none => .error (.columnNotFound table.name old)
      | some _ => .ok (table.modify old (·.rename new))

/-- Forgets where the data of the columns came from. -/
def settle (table : Table) : Table :=
  { table with entries := table.entries.map fun entry => { entry with origin := .kept } }

/-- Forgets the copy parameters. -/
def forgetParams (table : Table) : Table :=
  { table with entries := table.entries.map fun entry => { entry with params := none } }

/-- Points the foreign columns that reference `old` at `new`. -/
def retarget (old new : String) (table : Table) : Table :=
  { table with
    entries := table.entries.map fun entry =>
      { entry with column := entry.column.retarget old new } }

/-- The columns added in the batch being planned. -/
def added (table : Table) : List String :=
  (table.entries.filter (·.origin = .added)).map (·.name)

/-- The pending copy parameters by column. -/
def params (table : Table) : List (String × CopyParams) :=
  table.entries.filterMap fun entry => entry.params.map fun params => (entry.name, params)

/-- The columns renamed in the batch being planned, each with its name in the
stored table. -/
def renamedFrom (table : Table) : List (String × String) :=
  table.entries.filterMap fun entry =>
    match entry.origin with
    | .renamed source => some (entry.name, source)
    | .kept | .added => none

end Table

end SchemaMigration
