import SchemaMigration.Proofs.ColumnNotes
import SchemaMigration.Proofs.CopySources

/-!
# Notes kept through a run

A book keeps the notes of all tracked tables, by the name of the table, apart from the
tables.  It is carried from one segment to the next by what the segment declares.  In a
run that is accompanied by a book every rebuild copies what the book says, and between
two segments the book agrees with what the entries of the tables carry.
-/

namespace SchemaMigration

/-- The notes of a table whose columns are as they are stored. -/
def ColumnNotes.blank : ColumnNotes := ⟨fun _ => none, fun _ => none, fun _ => false⟩

theorem Table.notes_fresh (name : String) (columns : List Column) :
    (Table.fresh name columns).notes = .blank := by
  have hfind : ∀ column entry, (Table.fresh name columns).find? column = some entry →
      entry.params = none ∧ entry.origin = .kept := by
    intro column entry hfound
    obtain ⟨declared, -, rfl⟩ := List.mem_map.mp (List.mem_of_find?_eq_some hfound)
    exact ⟨rfl, rfl⟩
  ext column : 2
  all_goals
    cases hfound : (Table.fresh name columns).find? column with
    | none => simp [notes, ColumnNotes.blank, hfound]
    | some entry =>
        obtain ⟨hparams, horigin⟩ := hfind column entry hfound
        simp [notes, ColumnNotes.blank, hfound, hparams, horigin, TableColumn.renamedFrom?,
          TableColumn.isAdded]

/-- The notes of every tracked table, by its name. -/
abbrev Book := String → Option ColumnNotes

namespace Book

open Function

def empty : Book := fun _ => none

/-- The book after a segment of the table called `source`, which the segment leaves under
the name `target`, rebuilt or not. -/
def record (book : Book) (source target : String) (rebuilt : Bool) : Segment → Book
  | .alter actions =>
      update (update book source none) target
        ((book source).map fun notes => notes.planned rebuilt actions)
  | .create _ => update book source (some .blank)
  | .drop => update book source none

/-- The rows that a segment copies by the book, if it rebuilds its table with columns of the
given names. -/
def copying (book : Book) (source target : String) (names : List String) (rebuilt : Bool) :
    Segment → List Statement
  | .alter actions =>
      match rebuilt, book source with
      | true, some notes =>
          [.copyRows (target ++ "_tmp") ((actions.foldl ColumnNotes.record notes).copies names)
            source]
      | _, _ => []
  | .create _ | .drop => []

end Book

namespace Registry

open Function

/-- The book of what the entries of the tables carry. -/
def book (registry : Registry) : Book := fun name => (registry.find? name).map Table.notes

/-- The names of the columns of the table called `name`, if there is one. -/
def columnNames (registry : Registry) (name : String) : List String :=
  (registry.find? name).elim [] Table.columnNames

variable {registry next : Registry} {name : String} {table : Table}

theorem book_insert (hinsert : registry.insert table = .ok next) :
    next.book = update registry.book table.name (some table.notes) := by
  funext other
  rw [book, find?_insert hinsert, update_apply, apply_ite (Option.map Table.notes)]
  rfl

theorem book_remove (hremove : registry.remove name = .ok next) :
    next.book = update registry.book name none := by
  funext other
  rw [book, find?_remove hremove, update_apply, apply_ite (Option.map Table.notes)]
  rfl

/-- Notes are not about the tables that a foreign column references. -/
theorem book_replace (hreplace : registry.replace name table = .ok next) :
    next.book = update (update registry.book name none) table.name (some table.notes) := by
  funext other
  rw [update_apply]
  by_cases hother : other = table.name
  · rw [if_pos hother, book, hother, find?_of_replace hreplace, Option.map_some]
  · rw [if_neg hother, book, find?_of_replace_of_ne hreplace hother, update_apply,
      apply_ite (Option.map Table.notes), Option.map_map]
    have hnotes : Table.notes ∘ (fun stored => if table.name = name then stored
        else stored.retarget name table.name) = Table.notes := by
      funext stored
      rw [Function.comp_apply]
      split
      · rfl
      · exact Table.notes_retarget name table.name stored.name stored
    rw [hnotes]
    rfl

end Registry

namespace Planner

variable {planner : Planner} {registry next : Registry} {source : String} {batch : BatchPlan}

/-- Planned in place, an alteration keeps the copy parameters that its actions leave; a
rebuild copies what the notes say and uses them up.  Neither keeps anything of the history. -/
theorem notes_planAlteration {actions : List Action} (hsettled : registry.Settled)
    (hplan : planner.planAlteration registry source actions = .ok (next, batch)) :
    ∃ stored placed rebuilt, registry.find? source = some stored ∧ placed.name = batch.table ∧
      registry.replace source placed = .ok next ∧ rebuilt = decide (batch.rebuilds = 1) ∧
      placed.notes = stored.notes.planned rebuilt actions ∧
      batch.statements.filter Statement.isCopy =
        if rebuilt then
          [.copyRows (batch.table ++ "_tmp")
            ((actions.foldl ColumnNotes.record stored.notes).copies placed.columnNames) source]
        else [] := by
  obtain ⟨stored, target, hfind, happly, houtcome⟩ := planAlteration_ok hplan
  have hnodup := (hsettled.find? hfind).nodup
  have hnotes := (Registry.notes_applyAll hnodup happly).1
  rcases houtcome with ⟨-, hreplace, rfl⟩ | ⟨-, hreplace, statements, hdirect, rfl⟩
  · refine ⟨stored, target.forgetParams.settle, true, hfind, rfl, hreplace, rfl, ?_, ?_⟩
    · rw [Table.notes_settle, Table.notes_forgetParams, hnotes]
      rfl
    · rw [← hnotes, Table.columnNames_settle, Table.columnNames_forgetParams,
        ← Table.copies_eq (Registry.nodup_applyAll hnodup happly)]
      rfl
  · refine ⟨stored, target.settle, false, hfind, rfl, hreplace, rfl, ?_, ?_⟩
    · rw [Table.notes_settle, hnotes]
      rfl
    · exact filter_isCopy_direct hdirect

/-- What a segment does to the notes and the rows that it copies can be told from the book. -/
theorem book_planSegment {segment : Segment} (hsettled : registry.Settled)
    (hplan : planner.planSegment registry source segment = .ok (next, batch)) :
    next.book = registry.book.record source batch.table (batch.rebuilds = 1) segment ∧
      batch.statements.filter Statement.isCopy =
        registry.book.copying source batch.table (next.columnNames batch.table)
          (batch.rebuilds = 1) segment := by
  cases segment with
  | alter actions =>
      obtain ⟨stored, placed, rebuilt, hfind, hname, hreplace, hrebuilt, hnotes, hcopies⟩ :=
        notes_planAlteration hsettled hplan
      have hbook : registry.book source = some stored.notes := by
        rw [Registry.book, hfind, Option.map_some]
      have hplaced : next.columnNames batch.table = placed.columnNames := by
        rw [Registry.columnNames, ← hname, Registry.find?_of_replace hreplace]
        rfl
      rw [← hrebuilt]
      constructor
      · rw [Registry.book_replace hreplace, hname, hnotes, Book.record, hbook, Option.map_some]
      · rw [hcopies, hplaced]
        cases rebuilt <;> simp [Book.copying, hbook]
  | create columns =>
      obtain ⟨-, freed, hinsert, hfreed⟩ := planCreation_cases hplan
      have hnext := Registry.book_insert hinsert
      rw [Table.notes_fresh] at hnext
      rcases hfreed with ⟨-, rfl, rfl⟩ | ⟨-, hremove, rfl⟩
      · exact ⟨hnext, rfl⟩
      · rw [Registry.book_remove hremove] at hnext
        exact ⟨hnext.trans (Function.update_idem ..), rfl⟩
  | drop =>
      obtain ⟨hremove, rfl⟩ := planDrop_cases hplan
      exact ⟨Registry.book_remove hremove, rfl⟩

end Planner

/-- A registry that segments have left one after another, with the book that was kept along
and the rows that were copied by it. -/
inductive Noted : Registry → Book → List Statement → Prop
  | empty : Noted .empty .empty []
  | planned {planner : Planner} {registry next : Registry} {table : String} {segment : Segment}
      {batch : BatchPlan} {book : Book} {copied : List Statement}
      (noted : Noted registry book copied)
      (plan : planner.planSegment registry table segment = .ok (next, batch)) :
      Noted next (book.record table batch.table (batch.rebuilds = 1) segment)
        (copied ++ book.copying table batch.table (next.columnNames batch.table)
          (batch.rebuilds = 1) segment)

namespace Noted

variable {registry : Registry} {book : Book} {copied : List Statement}

theorem settled (hnoted : Noted registry book copied) : registry.Settled := by
  induction hnoted with
  | empty => exact fun table hmem => absurd hmem List.not_mem_nil
  | planned _ hplan ih => exact Planner.settled_planSegment ih hplan

/-- The entries of the tables carry what the book says. -/
theorem book_eq (hnoted : Noted registry book copied) : registry.book = book := by
  induction hnoted with
  | empty => rfl
  | planned hnoted hplan ih =>
      rw [← ih]
      exact (Planner.book_planSegment hnoted.settled hplan).1

end Noted

namespace Compilation

/-- Every run can be accompanied by a book.  It agrees with the tracked tables at the end, and
the rows that the run copies are those that it says. -/
theorem noted_run (settings : Settings) (commands : List Command) :
    ∃ book, Noted ((new settings).run commands).registry book
        (((new settings).run commands).statements.filter Statement.isCopy) ∧
      ((new settings).run commands).registry.book = book := by
  have hkeeps : SegmentCheck.always.Keeps fun registry statements =>
      ∃ book, Noted registry book (statements.filter Statement.isCopy) := by
    rintro planner registry next table segment batch statements - - hplan ⟨book, hnoted⟩
    have hcopies := (Planner.book_planSegment hnoted.settled hplan).2
    rw [hnoted.book_eq] at hcopies
    rw [List.filter_append, hcopies]
    exact ⟨_, hnoted.planned hplan⟩
  obtain ⟨book, hnoted⟩ := hkeeps.run_always ⟨_, .empty⟩ settings commands
  exact ⟨book, hnoted, hnoted.book_eq⟩

end Compilation

end SchemaMigration
