import SchemaMigration.Dialect.Version

/-!
# Dialects and their capabilities

A dialect lists the versions from which it offers each optional `ALTER TABLE`
form.  A dialect name and a version text together resolve to the set of forms
that may be used; an unknown dialect offers none.
-/

namespace SchemaMigration

/-- An `ALTER TABLE` form that older engines lack. -/
inductive Capability
  | dropColumn
  | renameColumn
  | renameTable
deriving DecidableEq

namespace Capability

def name : Capability → String
  | dropColumn => "DropColumn"
  | renameColumn => "RenameColumn"
  | renameTable => "RenameTable"

end Capability

/-- What an engine can alter without rebuilding a table. -/
structure Capabilities where
  dropColumn : Bool
  renameColumn : Bool
  renameTable : Bool
deriving DecidableEq

namespace Capabilities

/-- An engine that can alter nothing: every change rebuilds. -/
def empty : Capabilities := ⟨false, false, false⟩

def supports (capabilities : Capabilities) : Capability → Bool
  | .dropColumn => capabilities.dropColumn
  | .renameColumn => capabilities.renameColumn
  | .renameTable => capabilities.renameTable

def grant (capabilities : Capabilities) : Capability → Capabilities
  | .dropColumn => { capabilities with dropColumn := true }
  | .renameColumn => { capabilities with renameColumn := true }
  | .renameTable => { capabilities with renameTable := true }

end Capabilities

/-- A dialect with the version from which each of its capabilities exists. -/
structure Dialect where
  name : String
  thresholds : List (Capability × Version)

namespace Dialect

def sqlite : Dialect where
  name := "sqlite"
  thresholds :=
    [(.dropColumn, ⟨3, 35, 0⟩), (.renameColumn, ⟨3, 25, 0⟩),
     (.renameTable, ⟨3, 25, 0⟩)]

/-- The dialects that a configuration can name. -/
def registered : List Dialect := [sqlite]

def capabilities (dialect : Dialect) (version : Version) : Capabilities :=
  dialect.thresholds.foldl (fun granted threshold =>
    if version.atLeast threshold.2 then granted.grant threshold.1
    else granted) Capabilities.empty

end Dialect

/-- The capabilities of the dialect of that name at the version of that
text. -/
def Capabilities.resolve (dialect version : String) : Capabilities :=
  match Dialect.registered.find? (·.name = dialect) with
  | some found => found.capabilities (Version.parse version)
  | none => Capabilities.empty

end SchemaMigration
