import SchemaMigration.Change.Action

/-!
# Segments of a batch

The actions of a batch are cut where the life of the table begins or ends and
after each renaming of the table.  What lies between two cuts is planned as one
alteration.
-/

namespace SchemaMigration

inductive Segment
  | alter (actions : List Action)
  | create (columns : List Column)
  | drop
deriving DecidableEq

namespace Segment

/-- Puts an action in front of the segments after it: it belongs to an
alteration that comes first. -/
def prepend (action : Action) : List Segment → List Segment
  | .alter actions :: rest => .alter (action :: actions) :: rest
  | segments => .alter [action] :: segments

/-- The segments of a list of actions. -/
def cut : List Action → List Segment
  | [] => []
  | .createTable columns :: rest => .create columns :: cut rest
  | .dropTable :: rest => .drop :: cut rest
  | .renameTable new :: rest => .alter [.renameTable new] :: cut rest
  | action :: rest => prepend action (cut rest)

end Segment

end SchemaMigration
