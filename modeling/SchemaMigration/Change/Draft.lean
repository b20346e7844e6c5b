import SchemaMigration.Change.Action

/-!
# Drafts of changes

A column is drafted by settings, one after another, and finished as one action.
The calls on a table follow its renamings: after a renaming, later calls are
declared for the new name.
-/

namespace SchemaMigration

/-- One setting of a column draft. -/
inductive ColumnSetting
  | definition (column : Column)
  | type (type : ColumnType)
  | foreign (table : String)
  | primaryKey
  | autoIncrement
  | notNull
  | unique
  | default (value : Literal)
  | params (params : CopyParams)
  | fillFrom (column : String)
  | coalesce (value : Literal)
deriving DecidableEq

/-- What becomes of a drafted column. -/
inductive ColumnFinish
  | create
  | change
  | drop
  | rename (new : String)
deriving DecidableEq

/-- A column being drafted.  `isDefined` holds once a type or a flag was set. -/
structure ColumnDraft where
  column : Column
  isDefined : Bool
  params : Option CopyParams
deriving DecidableEq

namespace ColumnDraft

/-- A draft without settings: nullable text. -/
def named (name : String) : ColumnDraft := ⟨{ name, type := .text }, false, none⟩

/-- The draft with another definition under the same name. -/
def define (draft : ColumnDraft) (column : Column) : ColumnDraft :=
  { draft with column := { column with name := draft.column.name }, isDefined := true }

def set (draft : ColumnDraft) : ColumnSetting → ColumnDraft
  | .definition column => draft.define column
  | .type type => draft.define { draft.column with type }
  | .foreign table =>
      draft.define { draft.column with type := .foreign, references := some table }
  | .primaryKey => draft.define { draft.column with primaryKey := true }
  | .autoIncrement => draft.define { draft.column with autoIncrement := true }
  | .notNull => draft.define { draft.column with notNull := true }
  | .unique => draft.define { draft.column with unique := true }
  | .default value => draft.define { draft.column with default := some value }
  | .params params => { draft with params := some params }
  | .fillFrom column =>
      { draft with params := some { draft.params.getD {} with fillFrom := some column } }
  | .coalesce value =>
      { draft with params := some { draft.params.getD {} with coalesce := some value } }

/-- The draft of a column after all its settings. -/
def build (name : String) (settings : List ColumnSetting) : ColumnDraft :=
  settings.foldl set (named name)

/-- The action of a finished draft.  A change replaces the definition only when
one was given. -/
def finish (draft : ColumnDraft) : ColumnFinish → Action
  | .create => .addColumn draft.column draft.params
  | .change =>
      .changeColumn draft.column.name (if draft.isDefined then some draft.column else none)
        draft.params
  | .drop => .dropColumn draft.column.name
  | .rename new => .renameColumn draft.column.name new

end ColumnDraft

/-- One call on a table. -/
inductive TableCall
  | create (columns : List Column)
  | drop
  | rename (new : String)
  | column (name : String) (settings : List ColumnSetting) (finish : ColumnFinish)
deriving DecidableEq

namespace TableCall

/-- The action that a call declares. -/
def action : TableCall → Action
  | create columns => .createTable columns
  | drop => .dropTable
  | rename new => .renameTable new
  | column name settings finish => (ColumnDraft.build name settings).finish finish

/-- The name for which later calls are declared. -/
def nameAfter (table : String) : TableCall → String
  | rename new => new
  | _ => table

end TableCall

end SchemaMigration
