import SchemaMigration.Change.Action

/-!
# The queue of pending actions

Actions wait in batches of one table each.  An action joins the latest open
batch of its table unless a batch behind that one touches a table name that the
action touches.  Renaming a table closes its batch.  Batches leave in the order
in which they were opened.
-/

namespace SchemaMigration

/-- Actions of one table that are planned together, with the table names they
touch. -/
structure Batch where
  table : String
  actions : List Action
  names : List String
  isOpen : Bool
deriving DecidableEq

namespace Batch

/-- A batch of one action. -/
def single (table : String) (action : Action) : Batch where
  table := table
  actions := [action]
  names := action.tableNames table
  isOpen := !action.isRenameTable

def touches (batch : Batch) (names : List String) : Bool :=
  batch.names.any (names.contains ·)

/-- The batch with one more action. -/
def append (batch : Batch) (action : Action) : Batch :=
  { batch with
    actions := batch.actions ++ [action]
    names := batch.names ++ (action.tableNames batch.table).filter (!batch.names.contains ·)
    isOpen := !action.isRenameTable }

end Batch

structure Queue where
  batches : List Batch
deriving DecidableEq

namespace Queue

def empty : Queue := ⟨[]⟩

def isEmpty (queue : Queue) : Bool := queue.batches.isEmpty

/-- Adds the action to the latest open batch of its table that no batch behind
it keeps it from; none when there is no such batch.  The batches are listed
from the latest to the oldest. -/
def join? (table : String) (action : Action) : List Batch → Option (List Batch)
  | [] => none
  | batch :: older =>
      if batch.isOpen && batch.table = table then some (batch.append action :: older)
      else if batch.touches (action.tableNames table) then none
      else (join? table action older).map (batch :: ·)

/-- Declares an action for a table. -/
def push (queue : Queue) (table : String) (action : Action) : Queue :=
  match join? table action queue.batches.reverse with
  | some joined => ⟨joined.reverse⟩
  | none => ⟨queue.batches ++ [Batch.single table action]⟩

/-- The oldest batch and the queue without it. -/
def pop? (queue : Queue) : Option (Batch × Queue) :=
  match queue.batches with
  | [] => none
  | batch :: rest => some (batch, ⟨rest⟩)

end Queue

end SchemaMigration
