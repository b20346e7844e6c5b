import SchemaMigration.Proofs.TableSemantics

/-!
# Keys and uniqueness in a database

A table definition lists primary key, uniqueness and references in clauses of
their own, which `ALTER TABLE` can neither extend nor shorten.  What a statement
does to the columns of a table is told with the clauses that name each column.
-/

namespace SchemaMigration

/-- A column of a table in the database, with what binds it there: its own
definition as a key, and the clauses that name it. -/
structure KeyedColumn where
  name : String
  isIdentity : Bool
  inPrimaryKey : Bool
  inUnique : Bool
  inForeignKey : Bool
deriving DecidableEq

instance : Named KeyedColumn where
  name := KeyedColumn.name
  withName name column := { column with name }

namespace Column

/-- Whether rows that exist cannot be given the column: it is defined as not NULL
without a default other than NULL. -/
def demandsValue (column : Column) : Bool :=
  match column.type with
  | .identity | .foreign => false
  | .integer | .text | .real | .blob =>
      column.notNull && column.default.all fun value => value.sql = "NULL"

theorem default_ne {word : String} (hhead : word.toList.head? ≠ some 'D') (value : String) :
    word ≠ "DEFAULT " ++ value := by
  rintro rfl
  rw [String.toList_append] at hhead
  exact hhead rfl

theorem default_injective {first second : String}
    (hsame : "DEFAULT " ++ first = "DEFAULT " ++ second) : first = second := by
  have hlists := congrArg String.toList hsame
  rw [String.toList_append, String.toList_append] at hlists
  exact String.toList_injective (List.append_cancel_left hlists)

/-- The words that define a column that is neither an identity nor foreign. -/
theorem mem_attributes {column : Column} (hidentity : column.type ≠ .identity)
    (hforeign : column.type ≠ .foreign) (word : String) :
    word ∈ column.attributes ↔
      word = column.type.sql ∨ column.autoIncrement = true ∧ word = "AUTOINCREMENT" ∨
        column.notNull = true ∧ word = "NOT NULL" ∨
        ∃ value, column.default = some value ∧ word = "DEFAULT " ++ value.sql := by
  have hattributes : column.attributes = [column.type.sql] ++
      (if column.autoIncrement then ["AUTOINCREMENT"] else []) ++
      (if column.notNull then ["NOT NULL"] else []) ++
      (column.default.map fun value => "DEFAULT " ++ value.sql).toList := by
    rw [attributes]
    split
    next htype => exact absurd htype hidentity
    next htype => exact absurd htype hforeign
    · rfl
  have hflag : ∀ (flag : Bool) (word other : String),
      word ∈ (if flag then [other] else []) ↔ flag = true ∧ word = other := by
    intro flag word other
    cases flag <;> simp
  have hdefault : word ∈ (column.default.map fun value => "DEFAULT " ++ value.sql).toList ↔
      ∃ value, column.default = some value ∧ word = "DEFAULT " ++ value.sql := by
    rw [Option.mem_toList, Option.map_eq_some_iff]
    exact exists_congr fun value => and_congr_right fun _ => eq_comm
  simp only [hattributes, List.mem_append, List.mem_singleton, hflag, hdefault, or_assoc]

theorem notNull_mem_attributes {column : Column} (hidentity : column.type ≠ .identity)
    (hforeign : column.type ≠ .foreign) :
    "NOT NULL" ∈ column.attributes ↔ column.notNull = true := by
  have htype : "NOT NULL" ≠ column.type.sql := by
    cases column.type <;> decide
  have hdefault := default_ne (by decide : "NOT NULL".toList.head? ≠ some 'D')
  rw [mem_attributes hidentity hforeign]
  simp [hdefault, htype]

/-- The words of its definition tell whether a column demands a value. -/
theorem demandsValue_iff (column : Column) :
    column.demandsValue = true ↔
      "NOT NULL" ∈ column.attributes ∧
        ∀ value : Literal, "DEFAULT " ++ value.sql ∈ column.attributes → value.sql = "NULL" := by
  by_cases hidentity : column.type = .identity
  · simp [demandsValue, attributes, hidentity]
  by_cases hforeign : column.type = .foreign
  · simp [demandsValue, attributes, hforeign, ColumnType.sql]
  have hword : column.type.sql.toList.head? ≠ some 'D' := by
    cases column.type <;> decide
  have hdemands : column.demandsValue =
      (column.notNull && column.default.all fun value => value.sql = "NULL") := by
    rw [demandsValue]
    split
    next htype => exact absurd htype hidentity
    next htype => exact absurd htype hforeign
    all_goals rfl
  have hnotNull := notNull_mem_attributes hidentity hforeign
  have hdefault : ∀ value : Literal, "DEFAULT " ++ value.sql ∈ column.attributes ↔
      ∃ default, column.default = some default ∧ value.sql = default.sql := by
    intro value
    rw [mem_attributes hidentity hforeign]
    have htype := (default_ne hword value.sql).symm
    have hauto := (default_ne (by decide : "AUTOINCREMENT".toList.head? ≠ some 'D') value.sql).symm
    have hnull := (default_ne (by decide : "NOT NULL".toList.head? ≠ some 'D') value.sql).symm
    have hsame : ∀ default : Literal,
        "DEFAULT " ++ value.sql = "DEFAULT " ++ default.sql ↔ value.sql = default.sql :=
      fun default => ⟨default_injective, fun hsql => by rw [hsql]⟩
    simp only [htype, hauto, hnull, hsame, and_false, false_or]
  simp only [hdemands, hnotNull, hdefault, Bool.and_eq_true]
  refine and_congr_right fun _ => ?_
  cases column.default with
  | none => simp
  | some default =>
      constructor
      · rintro hnull value ⟨other, hother, hvalue⟩
        cases hother
        rw [hvalue]
        simpa using hnull
      · intro hall
        simpa using hall default ⟨default, rfl, rfl⟩

theorem isSome_target?_retarget (old new : String) (column : Column) :
    (column.retarget old new).target?.isSome = column.target?.isSome := by
  rw [target?_retarget]
  split
  next hfollows => rw [hfollows, Option.isSome_some, Option.isSome_some]
  · rfl

end Column

namespace KeyedColumn

/-- A column that its table was created with. -/
def created (column : Column) : KeyedColumn where
  name := column.name
  isIdentity := column.isIdentity
  inPrimaryKey := column.primaryKey && !column.isIdentity
  inUnique := column.unique
  inForeignKey := column.target?.isSome

/-- A column added to its table: it refers by itself to the table it references,
and no other clause names it. -/
def added (column : Column) : KeyedColumn where
  name := column.name
  isIdentity := column.isIdentity
  inPrimaryKey := false
  inUnique := false
  inForeignKey := column.target?.isSome

theorem created_retarget (old new : String) (column : Column) :
    created (column.retarget old new) = created column := by
  rw [created, created, Column.isSome_target?_retarget, Column.retarget]
  split <;> rfl

theorem added_retarget (old new : String) (column : Column) :
    added (column.retarget old new) = added column := by
  rw [added, added, Column.isSome_target?_retarget, Column.retarget]
  split <;> rfl

/-- Whether a column cannot be dropped. -/
def isBound (column : KeyedColumn) : Bool :=
  column.isIdentity || column.inPrimaryKey || column.inUnique || column.inForeignKey

def primaryKey (columns : List KeyedColumn) : List String :=
  (columns.filter (·.inPrimaryKey)).map (·.name)

def unique (columns : List KeyedColumn) : List String :=
  (columns.filter (·.inUnique)).map (·.name)

/-- The clauses of a created table name the columns that its statement lists. -/
theorem primaryKey_created (columns : List Column) :
    primaryKey (columns.map created) = Statement.keyColumns columns := by
  rw [primaryKey, List.filter_map, List.map_map]
  rfl

theorem unique_created (columns : List Column) :
    unique (columns.map created) = Statement.uniqueColumns columns := by
  rw [unique, List.filter_map, List.map_map]
  rfl

end KeyedColumn

namespace Statement

/-- What a statement that alters a table does to its columns.  A column is refused
that rows cannot be given, and one that is bound is not dropped.  Other statements
alter no table. -/
def alter : Statement → List KeyedColumn → Option (List KeyedColumn)
  | addColumn _ column, columns =>
      if column.demandsValue then none else Columns.add (KeyedColumn.added column) columns
  | dropColumn _ name, columns =>
      if columns.any fun column => column.name = name && column.isBound then none
      else Columns.drop name columns
  | renameColumn _ old new, columns => Columns.rename old new columns
  | renameTable _ _, columns => some columns
  | createTable _ _, _ | dropTable _, _ | copyRows _ _ _, _ => none

def alterAll (statements : List Statement) (columns : List KeyedColumn) :
    Option (List KeyedColumn) :=
  statements.foldlM (fun columns statement => statement.alter columns) columns

/-- What a statement does to the tables of a database. -/
def execKeyed : Statement → Catalog KeyedColumn → Option (Catalog KeyedColumn)
  | createTable name columns, database =>
      database.create name (columns.map KeyedColumn.created)
  | dropTable name, database => database.drop name
  | renameTable old new, database => database.move old new
  | addColumn table column, database => database.alter table (addColumn table column).alter
  | dropColumn table name, database => database.alter table (dropColumn table name).alter
  | renameColumn table old new, database =>
      database.alter table (renameColumn table old new).alter
  | copyRows target _ source, database =>
      if (database target).isSome && (database source).isSome then some database else none

def execKeyedAll (statements : List Statement) (database : Catalog KeyedColumn) :
    Option (Catalog KeyedColumn) :=
  statements.foldlM (fun database statement => statement.execKeyed database) database

theorem execKeyedAll_append (first second : List Statement) (database : Catalog KeyedColumn) :
    execKeyedAll (first ++ second) database =
      (execKeyedAll first database).bind (execKeyedAll second) :=
  List.foldlM_append

@[simp]
theorem execKeyedAll_cons (first : Statement) (rest : List Statement)
    (database : Catalog KeyedColumn) :
    execKeyedAll (first :: rest) database =
      (first.execKeyed database).bind (execKeyedAll rest) := rfl

end Statement

/-- Keyed columns give a semantics of statements, in which references do not show. -/
def KeyedColumn.semantics : TableSemantics KeyedColumn where
  view := created
  follow _ _ := id
  exec := Statement.execKeyed
  follow_view old new column := (created_retarget old new column).symm
  exec_createTable _ _ _ := rfl
  exec_dropTable _ _ := rfl
  exec_renameTable old new database := by
    rw [funext Catalog.mapColumns_id, Option.map_id']
    rfl
  exec_copyRows target copies source database htarget hsource := by
    rw [Statement.execKeyed, htarget, hsource]
    rfl

/-- The database whose tables have the columns of the registry, each with the clauses
that creating its table would give it. -/
def Registry.keyed (registry : Registry) : Catalog KeyedColumn := fun name =>
  (registry.find? name).map fun table => table.columns.map KeyedColumn.created

theorem Registry.seen_keyed (registry : Registry) :
    KeyedColumn.semantics.seen registry.schema = registry.keyed := by
  funext name
  rw [keyed, TableSemantics.seen, Catalog.mapColumns, schema, Option.map_map]
  rfl

end SchemaMigration
