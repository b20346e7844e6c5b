import SchemaMigration.History.Layout
import SchemaMigration.Schema.Literal
import SchemaMigration.Sql.Statement

/-!
# Migrations and their steps

A migration is a numbered list of steps.  The first step records the migration
in the history table; it binds the time at which it is compiled, which is read
only when the step is written out.
-/

namespace SchemaMigration

inductive Step
  | schema (statement : Statement)
  | sql (query : String) (values : List BoundValue)
  | record (layout : HistoryLayout) (id : Int) (version : String)
  | script (label : String)
  | asyncScript (label : String)
deriving DecidableEq

namespace Step

/-- The text of a step that has one; a script runs outside the database. -/
def query? : Step → Option String
  | schema statement => some statement.sql
  | sql query _ => some query
  | record layout _ _ => some layout.insertSql
  | script _ | asyncScript _ => none

/-- The values bound to a step, as `encode` writes them.  A record binds its identifier, the
version and the time, which is written as `now`. -/
def values {α : Type} (encode : BoundValue → α) (now : α) : Step → List α
  | sql _ values => values.map encode
  | record _ id version =>
      [encode (.literal (.integer id)), encode (.literal (.text version)), now]
  | schema _ | script _ | asyncScript _ => []

/-- A step of fixed text. -/
def plain (query : String) : Step := .sql query []

end Step

structure Migration where
  id : Int
  steps : List Step
deriving DecidableEq

end SchemaMigration
