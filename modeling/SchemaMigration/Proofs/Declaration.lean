import SchemaMigration.Change.Action
import SchemaMigration.Proofs.Reference

/-!
# Declarations carried out one at a time

A declaration is an action together with the table it is declared for.  This
file says what a declaration means on a plain catalog of columns, apart from
queues, batches and statements, and when two declarations can be exchanged.

There are two readings of a declaration.  To perform it changes the one table
it is declared for.  To apply it also redirects the foreign columns of all
tables when a table is renamed.
-/

namespace SchemaMigration

abbrev Schema := Catalog Column

/-- An action together with the table it is declared for. -/
structure Declaration where
  table : String
  action : Action
deriving DecidableEq

namespace Action

def mapColumns (f : Column → Column) : Action → Action
  | createTable columns => createTable (columns.map f)
  | addColumn column params => addColumn (f column) params
  | changeColumn name definition params => changeColumn name (definition.map f) params
  | action => action

/-- What an action on a column does to the columns of its table. -/
def onColumns : Action → List Column → Option (List Column)
  | addColumn column _ => Columns.add column
  | changeColumn name definition _ =>
      Columns.modify name fun column =>
        match definition with
        | some new => Named.withName name new
        | none => column
  | dropColumn name => Columns.drop name
  | renameColumn old new => Columns.rename old new
  | createTable _ | dropTable | renameTable _ => some

end Action

namespace Declaration

/-- The tables that a declaration reads or claims. -/
def names (declaration : Declaration) : List String :=
  declaration.action.tableNames declaration.table

theorem table_mem_names (declaration : Declaration) : declaration.table ∈ declaration.names := by
  cases declaration with
  | mk table action => cases action <;> simp [names, Action.tableNames]

def mapColumns (f : Column → Column) (declaration : Declaration) : Declaration :=
  { declaration with action := declaration.action.mapColumns f }

/-- Where a column points once the declaration is carried out: a renaming
redirects the foreign columns that reference the old name. -/
def follow (declaration : Declaration) : Column → Column :=
  match declaration.action with
  | .renameTable new => Column.retarget declaration.table new
  | _ => id

@[simp]
theorem names_mapColumns (f : Column → Column) (declaration : Declaration) :
    (declaration.mapColumns f).names = declaration.names := by
  cases declaration with
  | mk table action => cases action <;> rfl

@[simp]
theorem follow_mapColumns (f : Column → Column) (declaration : Declaration) :
    (declaration.mapColumns f).follow = declaration.follow := by
  cases declaration with
  | mk table action => cases action <;> rfl

theorem hom_follow (declaration : Declaration) : Columns.Hom declaration.follow := by
  rw [follow]
  split
  · exact Column.hom_retarget _ _
  · exact Column.hom_id

theorem follow_follow (declaration : Declaration) :
    declaration.follow ∘ declaration.follow = declaration.follow := by
  rw [follow]
  split
  · funext column
    exact Column.retarget_retarget _ _ _
  · rfl

/-- Where a column points once all the declarations are carried out. -/
def followAll (declarations : List Declaration) : Column → Column :=
  fun column => declarations.foldl (fun column declaration => declaration.follow column) column

theorem followAll_nil : followAll [] = id := rfl

theorem mapColumns_id (declaration : Declaration) : declaration.mapColumns id = declaration := by
  cases declaration with
  | mk table action => cases action <;> simp [mapColumns, Action.mapColumns]

theorem mapColumns_mapColumns (g f : Column → Column) (declaration : Declaration) :
    (declaration.mapColumns f).mapColumns g = declaration.mapColumns (g ∘ f) := by
  cases declaration with
  | mk table action => cases action <;> simp [mapColumns, Action.mapColumns]

theorem mapColumns_of_renameTable {declaration : Declaration}
    (hrename : declaration.action.isRenameTable = true) (f : Column → Column) :
    declaration.mapColumns f = declaration := by
  cases declaration with
  | mk table action =>
      cases action <;> simp_all [Action.isRenameTable, mapColumns, Action.mapColumns]

theorem bare_follow (declaration : Declaration) :
    Column.bare ∘ declaration.follow = Column.bare := by
  rw [follow]
  split
  · funext column
    exact Column.bare_retarget _ _ _
  · rfl

/-- Declarations for different tables redirect a column in either order. -/
theorem follow_comm {first second : Declaration}
    (hdisjoint : ∀ name ∈ first.names, name ∉ second.names) :
    first.follow ∘ second.follow = second.follow ∘ first.follow := by
  unfold follow
  split
  next old hold =>
    split
    next new hnew =>
      simp only [names, hold, hnew, Action.tableNames, List.mem_cons, List.not_mem_nil,
        or_false, forall_eq_or_imp, forall_eq, not_or] at hdisjoint
      funext column
      exact Column.retarget_comm hdisjoint.1.1 hdisjoint.1.2 hdisjoint.2.1 column
    · rfl
  · rfl

end Declaration

namespace Schema

/-- Carries out a declaration on the table it is declared for.  Creating a table
needs a free name, unless tables may be replaced, and distinct column names;
every other action needs the table. -/
def perform (replace : Bool) (declaration : Declaration) (schema : Schema) : Option Schema :=
  match declaration.action with
  | .createTable columns =>
      if (Columns.names columns).Nodup then
        if replace then some (schema.set declaration.table (some columns))
        else schema.create declaration.table columns
      else none
  | .dropTable => schema.drop declaration.table
  | .renameTable new => schema.move declaration.table new
  | action => schema.alter declaration.table action.onColumns

/-- Carries out a declaration; a renaming also redirects the foreign columns
that reference the old name. -/
def apply (replace : Bool) (declaration : Declaration) (schema : Schema) : Option Schema :=
  (perform replace declaration schema).map (Catalog.mapColumns declaration.follow)

/-- Performs declarations one after another. -/
def performAll (replace : Bool) (declarations : List Declaration) (schema : Schema) :
    Option Schema :=
  declarations.foldlM (fun schema declaration => perform replace declaration schema) schema

/-- Applies declarations one after another. -/
def applyAll (replace : Bool) (declarations : List Declaration) (schema : Schema) :
    Option Schema :=
  declarations.foldlM (fun schema declaration => apply replace declaration schema) schema

/-- The schema without the references of its columns. -/
def bare (schema : Schema) : Schema := schema.mapColumns Column.bare

variable {replace : Bool}

theorem actsOn_perform (replace : Bool) (declaration : Declaration) :
    Catalog.ActsOn declaration.names (perform replace declaration) := by
  cases declaration with
  | mk table action =>
      cases action with
      | createTable columns =>
          change Catalog.ActsOn [table] fun schema =>
            if (Columns.names columns).Nodup then
              if replace then some (schema.set table (some columns))
              else schema.create table columns
            else none
          split_ifs
          · exact Catalog.actsOn_set table (some columns)
          · exact Catalog.actsOn_create table columns
          · exact Catalog.actsOn_never [table]
      | dropTable => exact Catalog.actsOn_drop table
      | renameTable new => exact Catalog.actsOn_move table new
      | addColumn column params => exact Catalog.actsOn_alter table _
      | changeColumn name definition params => exact Catalog.actsOn_alter table _
      | dropColumn name => exact Catalog.actsOn_alter table _
      | renameColumn old new => exact Catalog.actsOn_alter table _

/-- Declarations for different tables can be performed in either order. -/
theorem perform_comm {first second : Declaration}
    (hdisjoint : ∀ name ∈ first.names, name ∉ second.names) (schema : Schema) :
    (perform replace first schema).bind (perform replace second) =
      (perform replace second schema).bind (perform replace first) :=
  (actsOn_perform replace first).bind_comm (actsOn_perform replace second) hdisjoint schema

theorem onColumns_map {f : Column → Column} (hom : Columns.Hom f) (action : Action)
    (columns : List Column) :
    (action.mapColumns f).onColumns (columns.map f) =
      (action.onColumns columns).map (List.map f) := by
  cases action with
  | addColumn column params => exact hom.add_map column columns
  | changeColumn name definition params =>
      refine hom.modify_map (fun column => ?_) name columns
      cases definition with
      | none => rfl
      | some new => exact hom.withName_eq name new
  | dropColumn name => exact hom.drop_map name columns
  | renameColumn old new => exact hom.rename_map old new columns
  | createTable columns => rfl
  | dropTable => rfl
  | renameTable new => rfl

/-- A map of columns commutes with every declaration. -/
theorem perform_mapColumns {f : Column → Column} (hom : Columns.Hom f)
    (declaration : Declaration) (schema : Schema) :
    perform replace (declaration.mapColumns f) (schema.mapColumns f) =
      (perform replace declaration schema).map (Catalog.mapColumns f) := by
  cases declaration with
  | mk table action =>
      cases action with
      | createTable columns =>
          simp only [perform, Declaration.mapColumns, Action.mapColumns, hom.names_map]
          split_ifs
          · simp [Catalog.mapColumns_set]
          · exact Catalog.create_mapColumns f schema table columns
          · rfl
      | dropTable => exact Catalog.drop_mapColumns f schema table
      | renameTable new => exact Catalog.move_mapColumns f schema table new
      | addColumn column params =>
          exact Catalog.alter_mapColumns (onColumns_map hom (.addColumn column params)) schema table
      | changeColumn name definition params =>
          exact Catalog.alter_mapColumns
            (onColumns_map hom (.changeColumn name definition params)) schema table
      | dropColumn name =>
          exact Catalog.alter_mapColumns (onColumns_map hom (.dropColumn name)) schema table
      | renameColumn old new =>
          exact Catalog.alter_mapColumns (onColumns_map hom (.renameColumn old new)) schema table

theorem apply_createTable (table : String) (columns : List Column) (schema : Schema) :
    apply replace ⟨table, .createTable columns⟩ schema =
      if (Columns.names columns).Nodup ∧ ((schema table).isSome = false ∨ replace = true) then
        some (schema.set table (some columns))
      else none := by
  have hfollow : Declaration.follow ⟨table, .createTable columns⟩ = id := rfl
  have hperform : perform replace ⟨table, .createTable columns⟩ schema =
      if (Columns.names columns).Nodup then
        if replace then some (schema.set table (some columns))
        else schema.create table columns
      else none := rfl
  rw [apply, hfollow, funext Catalog.mapColumns_id, Option.map_id', hperform]
  rw [Catalog.create]
  grind

theorem apply_dropTable (table : String) (schema : Schema) :
    apply replace ⟨table, .dropTable⟩ schema =
      if (schema table).isSome then some (schema.set table none) else none := by
  have hfollow : Declaration.follow ⟨table, .dropTable⟩ = id := rfl
  rw [apply, hfollow, funext Catalog.mapColumns_id, Option.map_id']
  rfl

/-- Only a creation does without its table. -/
theorem apply_missing {action : Action} (hterminal : action.isTerminal = false)
    {table : String} {schema : Schema} (hmissing : schema table = none) :
    apply replace ⟨table, action⟩ schema = none := by
  cases action <;>
    simp_all [Action.isTerminal, apply, perform, Catalog.move, Catalog.alter]

/-! ## Runs of declarations -/

@[simp]
theorem performAll_nil : performAll replace [] = some := rfl

@[simp]
theorem performAll_cons (first : Declaration) (rest : List Declaration) (schema : Schema) :
    performAll replace (first :: rest) schema =
      (perform replace first schema).bind (performAll replace rest) := rfl

theorem performAll_append (first second : List Declaration) (schema : Schema) :
    performAll replace (first ++ second) schema =
      (performAll replace first schema).bind (performAll replace second) :=
  List.foldlM_append

@[simp]
theorem applyAll_nil : applyAll replace [] = some := rfl

@[simp]
theorem applyAll_cons (first : Declaration) (rest : List Declaration) (schema : Schema) :
    applyAll replace (first :: rest) schema =
      (apply replace first schema).bind (applyAll replace rest) := rfl

theorem applyAll_single (declaration : Declaration) :
    applyAll replace [declaration] = apply replace declaration := by
  funext schema
  rw [applyAll_cons, applyAll_nil, Option.bind_fun_some]

theorem applyAll_append (first second : List Declaration) (schema : Schema) :
    applyAll replace (first ++ second) schema =
      (applyAll replace first schema).bind (applyAll replace second) :=
  List.foldlM_append

theorem applyAll_flatMap {ι : Type} (declarations : ι → List Declaration) (items : List ι)
    (schema : Schema) :
    applyAll replace (items.flatMap declarations) schema =
      items.foldlM (fun schema item => applyAll replace (declarations item) schema) schema := by
  induction items generalizing schema with
  | nil => rfl
  | cons first rest ih =>
      rw [List.flatMap_cons, applyAll_append, funext ih]
      rfl

/-- A declaration that no member of a list shares a table with can be performed
before or after the list. -/
theorem performAll_comm {declaration : Declaration} {declarations : List Declaration}
    (hdisjoint : ∀ other ∈ declarations, ∀ name ∈ declaration.names, name ∉ other.names)
    (schema : Schema) :
    performAll replace (declaration :: declarations) schema =
      performAll replace (declarations ++ [declaration]) schema := by
  induction declarations generalizing schema with
  | nil => rfl
  | cons other rest ih =>
      have hrest : ∀ next ∈ rest, ∀ name ∈ declaration.names, name ∉ next.names :=
        fun next hnext => hdisjoint next (List.mem_cons_of_mem _ hnext)
      calc performAll replace (declaration :: other :: rest) schema
          = ((perform replace declaration schema).bind (perform replace other)).bind
              (performAll replace rest) := by
            rw [Option.bind_assoc]
            rfl
        _ = (perform replace other schema).bind
              (performAll replace (declaration :: rest)) := by
            rw [perform_comm (hdisjoint other (by simp)), Option.bind_assoc]
            rfl
        _ = performAll replace (other :: rest ++ [declaration]) schema := by
            rw [funext (ih hrest)]
            rfl

/-- References play no part in what a declaration does otherwise. -/
theorem bare_apply (declaration : Declaration) (schema : Schema) :
    (apply replace declaration schema).map bare =
      perform replace (declaration.mapColumns Column.bare) schema.bare := by
  unfold bare
  rw [perform_mapColumns Column.hom_bare, apply, Option.map_map]
  congr 1
  funext next
  simp [Catalog.mapColumns_mapColumns, Declaration.bare_follow]

theorem bare_performAll (declarations : List Declaration) (schema : Schema) :
    (performAll replace declarations schema).map bare =
      performAll replace (declarations.map (Declaration.mapColumns Column.bare)) schema.bare := by
  induction declarations generalizing schema with
  | nil => rfl
  | cons first rest ih =>
      simp only [performAll_cons, List.map_cons]
      unfold bare at ih ⊢
      rw [perform_mapColumns Column.hom_bare, Option.map_bind, Option.bind_map]
      congr 1
      funext next
      exact ih next

theorem bare_applyAll (declarations : List Declaration) (schema : Schema) :
    (applyAll replace declarations schema).map bare =
      performAll replace (declarations.map (Declaration.mapColumns Column.bare)) schema.bare := by
  induction declarations generalizing schema with
  | nil => rfl
  | cons first rest ih =>
      rw [applyAll_cons, List.map_cons, performAll_cons, ← bare_apply, Option.map_bind,
        Option.bind_map]
      congr 1
      funext next
      exact ih next

end Schema

end SchemaMigration
