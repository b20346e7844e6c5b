import SchemaMigration.Change.Queue
import SchemaMigration.Proofs.Declaration

/-!
# The order in which a queue is drained

Draining a queue gives its declarations batch by batch.  A declaration that
joins an older batch is drained in front of the declarations of the batches
behind that one, which were declared earlier.  Those it overtakes share no table
name with it.
-/

namespace SchemaMigration

namespace Batch

def declarations (batch : Batch) : List Declaration :=
  batch.actions.map (Declaration.mk batch.table)

/-- The batch has collected every table name that its actions touch. -/
def Covers (batch : Batch) : Prop :=
  ∀ declaration ∈ batch.declarations, ∀ name ∈ declaration.names, name ∈ batch.names

/-- Whether the batch takes further actions on a table. -/
def accepts (table : String) (batch : Batch) : Bool :=
  batch.isOpen && batch.table = table

theorem accepts_iff {table : String} {batch : Batch} :
    batch.accepts table = true ↔ batch.isOpen = true ∧ batch.table = table := by
  rw [accepts, Bool.and_eq_true, decide_eq_true_eq]

@[simp]
theorem declarations_single (table : String) (action : Action) :
    (single table action).declarations = [⟨table, action⟩] := rfl

@[simp]
theorem declarations_append (batch : Batch) (action : Action) :
    (batch.append action).declarations = batch.declarations ++ [⟨batch.table, action⟩] := by
  simp [declarations, append]

theorem covers_single (table : String) (action : Action) : (single table action).Covers := by
  intro declaration hmem name hname
  rw [declarations_single, List.mem_singleton] at hmem
  subst hmem
  exact hname

theorem covers_append {batch : Batch} (hcovers : batch.Covers) (action : Action) :
    (batch.append action).Covers := by
  intro declaration hmem name hname
  rw [declarations_append, List.mem_append, List.mem_singleton] at hmem
  simp only [append, List.mem_append, List.mem_filter, Bool.not_eq_true',
    List.contains_eq_mem, decide_eq_false_iff_not]
  rcases hmem with hmem | rfl
  · exact Or.inl (hcovers declaration hmem name hname)
  · by_cases hknown : name ∈ batch.names
    · exact Or.inl hknown
    · exact Or.inr ⟨hname, hknown⟩

/-- A batch that does not touch the given names holds no declaration that does. -/
theorem disjoint_of_touches_eq_false {batch : Batch} (hcovers : batch.Covers)
    {names : List String} (htouches : batch.touches names = false) :
    ∀ declaration ∈ batch.declarations, ∀ name ∈ names, name ∉ declaration.names := by
  intro declaration hmem name hname hdeclared
  have hbatch := hcovers declaration hmem name hdeclared
  simp only [touches, List.any_eq_false, List.contains_eq_mem, decide_eq_true_eq] at htouches
  exact htouches name hbatch hname

end Batch

namespace Queue

/-- The declarations in the order in which they are drained. -/
def declarations (queue : Queue) : List Declaration :=
  queue.batches.flatMap Batch.declarations

def declare (queue : Queue) (declaration : Declaration) : Queue :=
  queue.push declaration.table declaration.action

def declareAll (queue : Queue) (declarations : List Declaration) : Queue :=
  declarations.foldl declare queue

def Covers (queue : Queue) : Prop := ∀ batch ∈ queue.batches, batch.Covers

/-- Of batches listed from the latest to the oldest, those behind the latest one
that accepts actions on the table. -/
def behind (table : String) (batches : List Batch) : List Batch :=
  batches.takeWhile (!Batch.accepts table ·)

/-- The waiting declarations in front of which a declaration is drained. -/
def overtaken (queue : Queue) (declaration : Declaration) : List Declaration :=
  match join? declaration.table declaration.action queue.batches.reverse with
  | some _ =>
      (behind declaration.table queue.batches.reverse).reverse.flatMap Batch.declarations
  | none => []

/-- An action joins the latest batch that accepts it, passing only batches that
touch none of its names. -/
theorem join?_eq_some {table : String} {action : Action} {batches joined : List Batch}
    (hjoin : join? table action batches = some joined) :
    ∃ batch older, batches = behind table batches ++ batch :: older ∧
      joined = behind table batches ++ batch.append action :: older ∧
      batch.accepts table = true ∧
      ∀ passed ∈ behind table batches, passed.touches (action.tableNames table) = false := by
  induction batches generalizing joined with
  | nil => cases hjoin
  | cons first rest ih =>
      rw [join?] at hjoin
      change (if first.accepts table = true then _ else _) = some joined at hjoin
      by_cases haccepts : first.accepts table = true
      · have hbehind : behind table (first :: rest) = [] := by simp [behind, haccepts]
        rw [if_pos haccepts, Option.some.injEq] at hjoin
        exact ⟨first, rest, by simp [hbehind], by simp [hbehind, hjoin], haccepts,
          by simp [hbehind]⟩
      · have hbehind : behind table (first :: rest) = first :: behind table rest := by
          simp [behind, haccepts]
        rw [if_neg haccepts] at hjoin
        split at hjoin
        · cases hjoin
        next htouches =>
          obtain ⟨tail, htail, rfl⟩ := Option.map_eq_some_iff.mp hjoin
          obtain ⟨batch, older, hrest, htailEq, hbatch, hpassed⟩ := ih htail
          refine ⟨batch, older, ?_, ?_, hbatch, ?_⟩
          · rw [hbehind, List.cons_append, ← hrest]
          · rw [hbehind, List.cons_append, ← htailEq]
          · rw [hbehind]
            exact List.forall_mem_cons.mpr ⟨by simpa using htouches, hpassed⟩

/-- Declaring an action puts it in front of the declarations it overtakes and
behind all others. -/
theorem declarations_declare (queue : Queue) (declaration : Declaration) :
    ∃ before, queue.declarations = before ++ queue.overtaken declaration ∧
      (queue.declare declaration).declarations =
        before ++ declaration :: queue.overtaken declaration := by
  rw [declare, push, overtaken]
  cases hjoin : join? declaration.table declaration.action queue.batches.reverse with
  | none =>
      exact ⟨queue.declarations, by simp, by simp [declarations]⟩
  | some joined =>
      obtain ⟨batch, older, hbatches, hjoined, haccepts, -⟩ := join?_eq_some hjoin
      have htable : batch.table = declaration.table := (Batch.accepts_iff.mp haccepts).2
      have hqueue : queue.batches = older.reverse ++ batch ::
          (behind declaration.table queue.batches.reverse).reverse := by
        have hreverse := congrArg List.reverse hbatches
        simpa using hreverse
      refine ⟨older.reverse.flatMap Batch.declarations ++ batch.declarations, ?_, ?_⟩
      · conv_lhs => rw [declarations, hqueue]
        simp
      · simp [declarations, hjoined, htable]

/-- The declarations overtaken share no table with the one that overtakes them. -/
theorem disjoint_overtaken {queue : Queue} (hcovers : queue.Covers)
    (declaration : Declaration) :
    ∀ other ∈ queue.overtaken declaration,
      ∀ name ∈ declaration.names, name ∉ other.names := by
  rw [overtaken]
  cases hjoin : join? declaration.table declaration.action queue.batches.reverse with
  | none => simp
  | some joined =>
      obtain ⟨batch, older, hbatches, -, -, hpassed⟩ := join?_eq_some hjoin
      intro other hother
      simp only [List.mem_flatMap, List.mem_reverse] at hother
      obtain ⟨passed, hmem, hother⟩ := hother
      have hqueued : passed ∈ queue.batches := by
        rw [← List.mem_reverse, hbatches]
        exact List.mem_append_left _ hmem
      exact Batch.disjoint_of_touches_eq_false (hcovers passed hqueued)
        (hpassed passed hmem) other hother

/-- What holds of a new batch and is kept when an open batch takes an action, every
batch has after a declaration. -/
theorem forall_batches_declare {property : Batch → Prop} {queue : Queue}
    {declaration : Declaration}
    (hsingle : property (Batch.single declaration.table declaration.action))
    (happend : ∀ batch ∈ queue.batches, batch.accepts declaration.table = true →
      property (batch.append declaration.action))
    (hbatches : ∀ batch ∈ queue.batches, property batch) :
    ∀ batch ∈ (queue.declare declaration).batches, property batch := by
  rw [declare, push]
  cases hjoin : join? declaration.table declaration.action queue.batches.reverse with
  | none => exact List.forall_mem_append.mpr ⟨hbatches, List.forall_mem_singleton.mpr hsingle⟩
  | some joined =>
      obtain ⟨target, older, hqueue, hjoined, haccepts, -⟩ := join?_eq_some hjoin
      have hold : ∀ batch ∈ behind declaration.table queue.batches.reverse ++ target :: older,
          batch ∈ queue.batches :=
        fun batch hmem => List.mem_reverse.mp (hqueue ▸ hmem)
      intro batch hmem
      simp only [List.mem_reverse, hjoined, List.mem_append, List.mem_cons] at hmem
      rcases hmem with hmem | rfl | hmem
      · exact hbatches batch (hold batch (List.mem_append_left _ hmem))
      · exact happend target (hold target (by simp)) haccepts
      · exact hbatches batch (hold batch (by simp [hmem]))

theorem covers_declare {queue : Queue} (hcovers : queue.Covers) (declaration : Declaration) :
    (queue.declare declaration).Covers :=
  forall_batches_declare (Batch.covers_single _ _)
    (fun batch hmem _ => Batch.covers_append (hcovers batch hmem) declaration.action) hcovers

theorem covers_empty : empty.Covers := by
  intro batch hmem
  cases hmem

theorem covers_declareAll {queue : Queue} (hcovers : queue.Covers)
    (declarations : List Declaration) : (queue.declareAll declarations).Covers := by
  induction declarations generalizing queue with
  | nil => exact hcovers
  | cons first rest ih => exact ih (covers_declare hcovers first)

@[simp]
theorem declareAll_concat (queue : Queue) (declarations : List Declaration)
    (last : Declaration) :
    queue.declareAll (declarations ++ [last]) =
      (queue.declareAll declarations).declare last := by
  simp [declareAll]

end Queue

end SchemaMigration
