import SchemaMigration.Schema.Table

/-!
# The registry of tracked tables

The registry holds what every table looks like after the changes planned so
far, in the order in which the tables were created.  It comes about by insertions
under free names, so a name stands for at most one table.
-/

namespace SchemaMigration

structure Registry where
  tables : List Table
deriving DecidableEq

namespace Registry

def empty : Registry := ⟨[]⟩

def find? (registry : Registry) (name : String) : Option Table :=
  registry.tables.find? (·.name = name)

def contains (registry : Registry) (name : String) : Bool :=
  (registry.find? name).isSome

/-- Starts tracking a table. -/
def insert (registry : Registry) (table : Table) : Except MigrationError Registry :=
  if registry.contains table.name then .error (.tableExists table.name)
  else .ok ⟨registry.tables ++ [table]⟩

/-- Stops tracking a table. -/
def remove (registry : Registry) (name : String) : Except MigrationError Registry :=
  if registry.contains name then .ok ⟨registry.tables.filter (·.name ≠ name)⟩
  else .error (.tableNotFound name)

/-- Points the foreign columns of every table that reference `old` at `new`. -/
def retarget (old new : String) (registry : Registry) : Registry :=
  ⟨registry.tables.map (Table.retarget old new)⟩

/-- Puts `table` into the place of the table called `name`. -/
def overwrite (registry : Registry) (name : String) (table : Table) : Registry :=
  ⟨registry.tables.map fun stored => if stored.name = name then table else stored⟩

/-- Replaces the table called `name`, keeping its place.  When the replacement
has another name, that name must be free, and the foreign columns of the other
tables follow the renaming. -/
def replace (registry : Registry) (name : String) (table : Table) :
    Except MigrationError Registry :=
  if !registry.contains name then .error (.tableNotFound name)
  else if table.name = name then .ok (registry.overwrite name table)
  else if registry.contains table.name then .error (.tableExists table.name)
  else .ok ((registry.retarget name table.name).overwrite name table)

end Registry

end SchemaMigration
