import Mathlib

/-!
# Catalogs of tables

A catalog maps each table name to the columns of the table, if there is one.
What counts as a column is left open: it is anything that carries a name.  A
change to a catalog acts on the tables of a few names; two changes that act on
different names can be exchanged.
-/

namespace SchemaMigration

/-! ## The first item of a key

Where keys differ, what is done to the first item of a key is done to every item
of that key.
-/

section FirstOfKey

variable {α κ : Type} [DecidableEq κ] {key : α → κ} {items : List α}

theorem modify_findIdx_eq_map (hnodup : (items.map key).Nodup) (value : κ) (change : α → α) :
    items.modify (items.findIdx (key · = value)) change =
      items.map fun item => if key item = value then change item else item := by
  induction items with
  | nil => rfl
  | cons first rest ih =>
      obtain ⟨hfirst, hrest⟩ := List.nodup_cons.mp hnodup
      rw [List.findIdx_cons, List.map_cons]
      by_cases hkey : key first = value
      · have hothers : ∀ item ∈ rest, (if key item = value then change item else item) = item :=
          fun item hmem => if_neg fun hsame =>
            hfirst (List.mem_map.mpr ⟨item, hmem, hsame.trans hkey.symm⟩)
        rw [decide_eq_true hkey, cond_true, if_pos hkey, List.modify_zero_cons,
          List.map_congr_left hothers, List.map_id']
      · rw [decide_eq_false hkey, cond_false, if_neg hkey, List.modify_succ_cons, ih hrest]

theorem eraseP_eq_filter (hnodup : (items.map key).Nodup) (value : κ) :
    items.eraseP (key · = value) = items.filter fun item => key item ≠ value := by
  induction items with
  | nil => rfl
  | cons first rest ih =>
      obtain ⟨hfirst, hrest⟩ := List.nodup_cons.mp hnodup
      by_cases hkey : key first = value
      · have hothers : ∀ item ∈ rest, key item ≠ value := fun item hmem hsame =>
          hfirst (List.mem_map.mpr ⟨item, hmem, hsame.trans hkey.symm⟩)
        rw [List.eraseP_cons_of_pos (by simpa using hkey),
          List.filter_cons_of_neg (by simpa using hkey),
          List.filter_eq_self.mpr (by simpa using hothers)]
      · rw [List.eraseP_cons_of_neg (by simpa using hkey),
          List.filter_cons_of_pos (by simpa using hkey), ih hrest]

end FirstOfKey

/-- Things that carry a name, which can be replaced. -/
class Named (α : Type) where
  name : α → String
  withName : String → α → α

namespace Columns

variable {α β : Type} [Named α] [Named β]

def names (columns : List α) : List String := columns.map Named.name

/-- Appends a column under a free name. -/
def add (column : α) (columns : List α) : Option (List α) :=
  if Named.name column ∈ names columns then none else some (columns ++ [column])

/-- The place of the first column of a name. -/
def place (name : String) (columns : List α) : Nat := columns.findIdx (Named.name · = name)

/-- Applies `change` to the first column of a name, which must exist. -/
def modify (name : String) (change : α → α) (columns : List α) : Option (List α) :=
  if name ∈ names columns then some (columns.modify (place name columns) change) else none

/-- Leaves out the first column of a name, which must exist. -/
def drop (name : String) (columns : List α) : Option (List α) :=
  if name ∈ names columns then some (columns.eraseP (Named.name · = name)) else none

/-- Gives a column a new name, which must be free. -/
def rename (old new : String) (columns : List α) : Option (List α) :=
  if new ∈ names columns then none else modify old (Named.withName new) columns

theorem add_cases {column : α} {columns next : List α} (hadd : add column columns = some next) :
    Named.name column ∉ names columns ∧ next = columns ++ [column] := by
  rw [add] at hadd
  split at hadd
  · cases hadd
  next hfree => exact ⟨hfree, (Option.some.inj hadd).symm⟩

theorem drop_cases {name : String} {columns next : List α}
    (hdrop : drop name columns = some next) :
    name ∈ names columns ∧ next = columns.eraseP (Named.name · = name) := by
  rw [drop] at hdrop
  split at hdrop
  next hmem => exact ⟨hmem, (Option.some.inj hdrop).symm⟩
  · cases hdrop

theorem modify_cases {name : String} {change : α → α} {columns next : List α}
    (hmodify : modify name change columns = some next) :
    name ∈ names columns ∧ next = columns.modify (place name columns) change := by
  rw [modify] at hmodify
  split at hmodify
  next hmem => exact ⟨hmem, (Option.some.inj hmodify).symm⟩
  · cases hmodify

theorem rename_cases {old new : String} {columns next : List α}
    (hrename : rename old new columns = some next) :
    new ∉ names columns ∧ modify old (Named.withName new) columns = some next := by
  rw [rename] at hrename
  split at hrename
  · cases hrename
  next hfree => exact ⟨hfree, hrename⟩

/-! ## The first column of a name -/

theorem place_lt_length {name : String} {columns : List α} (hmem : name ∈ names columns) :
    place name columns < columns.length := by
  obtain ⟨column, hcolumn, hname⟩ := List.mem_map.mp hmem
  exact List.findIdx_lt_length.mpr ⟨column, hcolumn, by simpa using hname⟩

omit [Named α] in
theorem mem_modify {columns : List α} {index : Nat} {change : α → α} {column : α}
    (hmem : column ∈ columns.modify index change) :
    column ∈ columns ∨ ∃ before ∈ columns, column = change before := by
  obtain ⟨position, hposition⟩ := List.mem_iff_getElem?.mp hmem
  rw [List.getElem?_modify] at hposition
  obtain ⟨before, hbefore, rfl⟩ := Option.map_eq_some_iff.mp hposition
  have hold := List.mem_of_getElem? hbefore
  split
  · exact Or.inr ⟨before, hold, rfl⟩
  · exact Or.inl hold

omit [Named α] [Named β] in
theorem map_modify {f : α → β} {change : α → α} {change' : β → β}
    (hchange : ∀ column, f (change column) = change' (f column)) (columns : List α)
    (index : Nat) : (columns.map f).modify index change' = (columns.modify index change).map f := by
  apply List.ext_getElem?
  intro position
  simp only [List.getElem?_modify, List.getElem?_map, Option.map_eq_map, Option.map_map]
  congr 1
  funext column
  by_cases hindex : index = position <;> simp [hindex, hchange]

omit [Named α] [Named β] in
/-- What a change keeps of a column stays in every place. -/
theorem map_modify_of_keeps {f : α → β} {change : α → α}
    (hkeeps : ∀ column, f (change column) = f column) (columns : List α) (index : Nat) :
    (columns.modify index change).map f = columns.map f := by
  have hchange : ∀ column, f (change column) = id (f column) := hkeeps
  rw [← map_modify hchange, List.modify_id]

/-- A map of columns that respects their names. -/
structure Hom (f : α → β) : Prop where
  name_eq : ∀ column, Named.name (f column) = Named.name column
  withName_eq : ∀ name column, f (Named.withName name column) = Named.withName name (f column)

namespace Hom

variable {f : α → β}

theorem names_map (hom : Hom f) (columns : List α) :
    names (columns.map f) = names columns := by
  simp [names, Function.comp_def, hom.name_eq]

theorem add_map (hom : Hom f) (column : α) (columns : List α) :
    add (f column) (columns.map f) = (add column columns).map (List.map f) := by
  unfold add
  rw [hom.names_map, hom.name_eq]
  split <;> simp

theorem drop_map (hom : Hom f) (name : String) (columns : List α) :
    drop name (columns.map f) = (drop name columns).map (List.map f) := by
  unfold drop
  rw [hom.names_map, List.eraseP_map]
  split <;> simp [Function.comp_def, hom.name_eq]

theorem place_map (hom : Hom f) (name : String) (columns : List α) :
    place name (columns.map f) = place name columns := by
  simp [place, List.findIdx_map, Function.comp_def, hom.name_eq]

theorem modify_map (hom : Hom f) {change : α → α} {change' : β → β}
    (hchange : ∀ column, f (change column) = change' (f column))
    (name : String) (columns : List α) :
    modify name change' (columns.map f) = (modify name change columns).map (List.map f) := by
  unfold modify
  rw [hom.names_map, hom.place_map, map_modify hchange]
  split <;> rfl

theorem rename_map (hom : Hom f) (old new : String) (columns : List α) :
    rename old new (columns.map f) = (rename old new columns).map (List.map f) := by
  unfold rename
  rw [hom.names_map, hom.modify_map (hom.withName_eq new)]
  split <;> rfl

end Hom

end Columns

/-- The columns of each table that exists. -/
def Catalog (α : Type) := String → Option (List α)

namespace Catalog

variable {α β : Type}

def empty : Catalog α := fun _ => none

/-- Puts a table, or none, under a name. -/
def set (catalog : Catalog α) (table : String) (columns : Option (List α)) : Catalog α :=
  Function.update catalog table columns

/-- Creates a table under a free name. -/
def create (catalog : Catalog α) (table : String) (columns : List α) : Option (Catalog α) :=
  if (catalog table).isSome then none else some (catalog.set table (some columns))

def drop (catalog : Catalog α) (table : String) : Option (Catalog α) :=
  if (catalog table).isSome then some (catalog.set table none) else none

/-- Moves a table to a free name. -/
def move (catalog : Catalog α) (old new : String) : Option (Catalog α) :=
  (catalog old).bind fun columns =>
    if (catalog new).isSome then none
    else some ((catalog.set old none).set new (some columns))

/-- Changes the columns of a table. -/
def alter (catalog : Catalog α) (table : String)
    (change : List α → Option (List α)) : Option (Catalog α) :=
  ((catalog table).bind change).map fun columns => catalog.set table (some columns)

/-- Applies a function to every column of every table. -/
def mapColumns (f : α → β) (catalog : Catalog α) : Catalog β :=
  fun table => (catalog table).map (List.map f)

@[simp]
theorem set_self (catalog : Catalog α) (table : String) (columns : Option (List α)) :
    catalog.set table columns table = columns :=
  Function.update_self ..

theorem set_of_ne (catalog : Catalog α) {table other : String} (columns : Option (List α))
    (hne : other ≠ table) : catalog.set table columns other = catalog other :=
  Function.update_of_ne hne ..

@[simp]
theorem set_set (catalog : Catalog α) (table : String) (first second : Option (List α)) :
    (catalog.set table first).set table second = catalog.set table second :=
  Function.update_idem ..

@[simp]
theorem set_eq_self (catalog : Catalog α) (table : String) :
    catalog.set table (catalog table) = catalog :=
  Function.update_eq_self ..

theorem set_of_eq {catalog : Catalog α} {table : String} {columns : Option (List α)}
    (htable : catalog table = columns) : catalog.set table columns = catalog := by
  rw [← htable, set_eq_self]

theorem set_comm (catalog : Catalog α) {table other : String} (hne : table ≠ other)
    (first second : Option (List α)) :
    (catalog.set table first).set other second = (catalog.set other second).set table first :=
  Function.update_comm hne ..

theorem create_of_eq_none {catalog : Catalog α} {table : String}
    (hfree : catalog table = none) (columns : List α) :
    catalog.create table columns = some (catalog.set table (some columns)) := by
  rw [create, hfree]
  rfl

theorem drop_of_isSome {catalog : Catalog α} {table : String}
    (htable : (catalog table).isSome = true) :
    catalog.drop table = some (catalog.set table none) :=
  if_pos htable

theorem move_of_eq {catalog : Catalog α} {old new : String} {columns : List α}
    (hold : catalog old = some columns) (hnew : catalog new = none) :
    catalog.move old new = some ((catalog.set old none).set new (some columns)) := by
  rw [move, hold, hnew]
  rfl

/-- A table made under a spare name takes the place of another. -/
theorem move_spare {catalog : Catalog α} {source spare name : String}
    (hspare : catalog spare = none) (hsource : source ≠ spare) (hname : name ≠ spare)
    (hfree : name = source ∨ catalog name = none) (columns : List α) :
    ((catalog.set spare (some columns)).set source none).move spare name =
      some ((catalog.set source none).set name (some columns)) := by
  have hheld : (catalog.set spare (some columns)).set source none spare = some columns := by
    rw [set_of_ne _ _ hsource.symm, set_self]
  have hnameFree : (catalog.set spare (some columns)).set source none name = none := by
    by_cases hsame : name = source
    · rw [hsame, set_self]
    · rw [set_of_ne _ _ hsame, set_of_ne _ _ hname]
      exact hfree.resolve_left hsame
  have hgone : ((catalog.set spare (some columns)).set source none).set spare none =
      catalog.set source none := by
    rw [set_comm _ hsource.symm, set_set]
    refine set_of_eq ?_
    rw [set_of_ne _ _ hsource.symm, hspare]
  rw [move_of_eq hheld hnameFree, hgone]

theorem alter_cases {catalog next : Catalog α} {table : String}
    {change : List α → Option (List α)} (halter : catalog.alter table change = some next) :
    ∃ columns changed, catalog table = some columns ∧ change columns = some changed ∧
      next = catalog.set table (some changed) := by
  obtain ⟨changed, hchanged, hnext⟩ := Option.map_eq_some_iff.mp halter
  obtain ⟨columns, hcolumns, hchange⟩ := Option.bind_eq_some_iff.mp hchanged
  exact ⟨columns, changed, hcolumns, hchange, hnext.symm⟩

/-! ## Maps of columns commute with the changes -/

@[simp]
theorem isSome_mapColumns (f : α → β) (catalog : Catalog α) (table : String) :
    (catalog.mapColumns f table).isSome = (catalog table).isSome := by
  simp [mapColumns]

theorem mapColumns_mapColumns {γ : Type} (g : β → γ) (f : α → β) (catalog : Catalog α) :
    (catalog.mapColumns f).mapColumns g = catalog.mapColumns (g ∘ f) := by
  funext table
  simp [mapColumns]

theorem mapColumns_id (catalog : Catalog α) : catalog.mapColumns id = catalog := by
  funext table
  simp [mapColumns]

theorem mapColumns_set (f : α → β) (catalog : Catalog α) (table : String)
    (columns : Option (List α)) :
    (catalog.set table columns).mapColumns f =
      (catalog.mapColumns f).set table (columns.map (List.map f)) := by
  funext other
  by_cases hother : other = table
  · subst hother
    simp [mapColumns]
  · simp [mapColumns, set_of_ne _ _ hother]

theorem create_mapColumns (f : α → β) (catalog : Catalog α) (table : String)
    (columns : List α) :
    (catalog.mapColumns f).create table (columns.map f) =
      (catalog.create table columns).map (mapColumns f) := by
  unfold create
  rw [isSome_mapColumns]
  split <;> simp [mapColumns_set]

theorem drop_mapColumns (f : α → β) (catalog : Catalog α) (table : String) :
    (catalog.mapColumns f).drop table = (catalog.drop table).map (mapColumns f) := by
  unfold drop
  rw [isSome_mapColumns]
  split <;> simp [mapColumns_set]

theorem move_mapColumns (f : α → β) (catalog : Catalog α) (old new : String) :
    (catalog.mapColumns f).move old new = (catalog.move old new).map (mapColumns f) := by
  unfold move
  rw [isSome_mapColumns]
  cases hold : catalog old with
  | none => simp [mapColumns, hold]
  | some columns =>
      simp only [mapColumns, hold, Option.map_some, Option.bind_some]
      split
      · rfl
      · simp only [Option.map_some, mapColumns_set, Option.map_none]

theorem alter_mapColumns {f : α → β} {change : List α → Option (List α)}
    {change' : List β → Option (List β)}
    (hchange : ∀ columns, change' (columns.map f) = (change columns).map (List.map f))
    (catalog : Catalog α) (table : String) :
    (catalog.mapColumns f).alter table change' =
      (catalog.alter table change).map (mapColumns f) := by
  unfold alter
  cases htable : catalog table with
  | none => simp [mapColumns, htable]
  | some columns =>
      simp only [mapColumns, htable, Option.map_some, Option.bind_some, hchange]
      cases change columns with
      | none => rfl
      | some altered =>
          simp only [Option.map_some, Option.some.injEq]
          exact (mapColumns_set f catalog table (some altered)).symm

/-! ## Changes act on the tables of a few names -/

/-- A partial change that reads and writes nothing but the tables of the given
names. -/
structure ActsOn (names : List String) (change : Catalog α → Option (Catalog α)) : Prop where
  frame : ∀ {catalog next}, change catalog = some next →
    ∀ name ∉ names, next name = catalog name
  agree : ∀ {catalog next} (other : Catalog α), change catalog = some next →
    (∀ name ∈ names, other name = catalog name) →
    ∃ otherNext, change other = some otherNext ∧
      ∀ name ∈ names, otherNext name = next name

/-- A change that looks at one table and replaces it acts on its name. -/
theorem actsOn_replace (table : String)
    (change : Option (List α) → Option (Option (List α))) :
    ActsOn [table] (fun catalog => (change (catalog table)).map (catalog.set table)) where
  frame := by
    intro catalog next hnext name hname
    obtain ⟨columns, -, rfl⟩ := Option.map_eq_some_iff.mp hnext
    exact set_of_ne _ _ (by simpa using hname)
  agree := by
    intro catalog next other hnext hagree
    obtain ⟨columns, hchange, rfl⟩ := Option.map_eq_some_iff.mp hnext
    refine ⟨other.set table columns, ?_, by simp⟩
    rw [hagree table (by simp), hchange, Option.map_some]

theorem actsOn_set (table : String) (columns : Option (List α)) :
    ActsOn [table] (fun catalog => some (catalog.set table columns)) :=
  actsOn_replace table fun _ => some columns

theorem actsOn_never (names : List String) :
    ActsOn names (fun _ : Catalog α => none) where
  frame := by simp
  agree := by simp

theorem actsOn_create (table : String) (columns : List α) :
    ActsOn [table] (fun catalog => catalog.create table columns) := by
  convert actsOn_replace table
    (fun stored : Option (List α) => if stored.isSome then none else some (some columns))
    using 2 with catalog
  rw [create]
  split <;> rfl

theorem actsOn_drop (table : String) :
    ActsOn [table] (fun catalog : Catalog α => catalog.drop table) := by
  convert actsOn_replace table
    (fun stored : Option (List α) => if stored.isSome then some none else none)
    using 2 with catalog
  rw [drop]
  split <;> rfl

theorem actsOn_alter (table : String) (change : List α → Option (List α)) :
    ActsOn [table] (fun catalog => catalog.alter table change) := by
  convert actsOn_replace table
    (fun stored : Option (List α) => (stored.bind change).map some) using 2 with catalog
  rw [alter]
  rw [Option.map_map]
  rfl

theorem actsOn_move (old new : String) :
    ActsOn [old, new] (fun catalog : Catalog α => catalog.move old new) where
  frame := by
    intro catalog next hnext name hname
    simp only [move, Option.bind_eq_some_iff] at hnext
    obtain ⟨columns, -, hnext⟩ := hnext
    split at hnext
    · cases hnext
    · cases hnext
      simp only [List.mem_cons, List.not_mem_nil, or_false, not_or] at hname
      rw [set_of_ne _ _ hname.2, set_of_ne _ _ hname.1]
  agree := by
    intro catalog next other hnext hagree
    simp only [move, Option.bind_eq_some_iff] at hnext
    obtain ⟨columns, hold, hnext⟩ := hnext
    split at hnext
    · cases hnext
    next hfree =>
      cases hnext
      refine ⟨(other.set old none).set new (some columns), ?_, ?_⟩
      · rw [move, hagree old (by simp), hold, Option.bind_some, hagree new (by simp),
          if_neg hfree]
      · intro name hname
        by_cases hnew : name = new
        · subst hnew
          simp
        · have hold : name = old := by simpa [hnew] using hname
          subst hold
          simp [set_of_ne _ _ hnew]

namespace ActsOn

variable {names others : List String} {f g : Catalog α → Option (Catalog α)}

/-- Two changes that act on different names and can be made one after the other
can be made in the other order, to the same effect. -/
theorem exchange (hf : ActsOn names f) (hg : ActsOn others g)
    (hdisjoint : ∀ name ∈ names, name ∉ others) {catalog middle last : Catalog α}
    (hfirst : f catalog = some middle) (hsecond : g middle = some last) :
    ∃ between, g catalog = some between ∧ f between = some last := by
  have hunread : ∀ name ∈ others, catalog name = middle name := by
    intro name hname
    exact (hf.frame hfirst name fun hmem => hdisjoint name hmem hname).symm
  obtain ⟨between, hbetween, hothers⟩ := hg.agree catalog hsecond hunread
  have hkept : ∀ name ∈ names, between name = catalog name := by
    intro name hname
    exact hg.frame hbetween name (hdisjoint name hname)
  obtain ⟨final, hfinal, hnames⟩ := hf.agree between hfirst hkept
  refine ⟨between, hbetween, ?_⟩
  rw [hfinal, Option.some.injEq]
  funext name
  by_cases hmem : name ∈ names
  · rw [hnames name hmem, hg.frame hsecond name (hdisjoint name hmem)]
  · rw [hf.frame hfinal name hmem]
    by_cases hother : name ∈ others
    · exact hothers name hother
    · rw [hg.frame hbetween name hother, hg.frame hsecond name hother,
        hf.frame hfirst name hmem]

/-- Changes that act on different names can be exchanged. -/
theorem bind_comm (hf : ActsOn names f) (hg : ActsOn others g)
    (hdisjoint : ∀ name ∈ names, name ∉ others) (catalog : Catalog α) :
    (f catalog).bind g = (g catalog).bind f := by
  apply Option.ext
  intro last
  simp only [Option.bind_eq_some_iff]
  constructor
  · rintro ⟨middle, hfirst, hsecond⟩
    exact hf.exchange hg hdisjoint hfirst hsecond
  · rintro ⟨middle, hfirst, hsecond⟩
    exact hg.exchange hf (fun name hname hmem => hdisjoint name hmem hname) hfirst hsecond

end ActsOn

end Catalog

end SchemaMigration
