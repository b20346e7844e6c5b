import SchemaMigration.Proofs.QueueOrder

/-!
# What a drained queue gives

Actions that were pushed into a queue leave it batch by batch.  None is lost and
none comes twice, actions that touch a common table name keep their order, and a
renaming of a table is the last action of its batch.  Where no table is renamed
there is one batch for each table.
-/

namespace SchemaMigration

namespace Queue

theorem batches_of_pop? {queue rest : Queue} {batch : Batch}
    (hpop : queue.pop? = some (batch, rest)) : queue.batches = batch :: rest.batches := by
  rw [pop?] at hpop
  split at hpop
  · cases hpop
  next first others hbatches =>
    cases hpop
    exact hbatches

/-- The batches that a queue gives up, one after another, until it is empty. -/
def drain (queue : Queue) : List Batch :=
  match _hpop : queue.pop? with
  | none => []
  | some (batch, rest) => batch :: rest.drain
termination_by queue.batches.length
decreasing_by simp [batches_of_pop? _hpop]

theorem drain_eq (queue : Queue) : queue.drain = queue.batches := by
  obtain ⟨batches⟩ := queue
  induction batches with
  | nil => rw [drain, pop?]
  | cons batch rest ih =>
      rw [drain, pop?]
      exact congrArg (batch :: ·) ih

/-! ## The order in which declarations leave -/

/-- The declarations `drained` are the declarations `declared` in another order.
It is given by the places at which they were declared: each place occurs once, and
the places of declarations that share a table name occur in their order. -/
structure Reorders (order : List Nat) (declared drained : List Declaration) : Prop where
  perm : order.Perm (List.range declared.length)
  drained_eq : drained.map some = order.map (declared[·]?)
  keeps : ∀ i j first second, i < j → declared[i]? = some first → declared[j]? = some second →
    (∃ name ∈ first.names, name ∈ second.names) → [i, j].Sublist order

theorem reorders_nil : Reorders [] [] [] := ⟨.nil, rfl, by simp⟩

/-- One more declaration can leave in front of declarations that share no table
name with it. -/
theorem Reorders.insert {front back : List Nat} {declared before behind : List Declaration}
    (horder : Reorders (front ++ back) declared (before ++ behind))
    (hbefore : before.map some = front.map (declared[·]?))
    (hbehind : behind.map some = back.map (declared[·]?)) {last : Declaration}
    (hdisjoint : ∀ other ∈ behind, ∀ name ∈ last.names, name ∉ other.names) :
    Reorders (front ++ declared.length :: back) (declared ++ [last])
      (before ++ last :: behind) where
  perm := by
    have hrange : (List.range (declared ++ [last]).length).Perm
        (declared.length :: List.range declared.length) := by
      rw [List.length_append, List.length_singleton, List.range_succ]
      exact List.perm_append_singleton _ _
    calc (front ++ declared.length :: back).Perm (declared.length :: (front ++ back)) :=
          List.perm_middle
      _ |>.Perm (declared.length :: List.range declared.length) := horder.perm.cons _
      _ |>.Perm (List.range (declared ++ [last]).length) := hrange.symm
  drained_eq := by
    have hkept : ∀ places : List Nat, (∀ i ∈ places, i ∈ front ++ back) →
        places.map (declared[·]?) = places.map ((declared ++ [last])[·]?) := by
      intro places hplaces
      refine List.map_congr_left fun i hmem => ?_
      have hlt : i < declared.length := by
        simpa using horder.perm.mem_iff.mp (hplaces i hmem)
      rw [List.getElem?_append_left hlt]
    have hfront := hkept front fun i hmem => List.mem_append_left back hmem
    have hback := hkept back fun i hmem => List.mem_append_right front hmem
    rw [List.map_append, List.map_cons, hbefore, hbehind, hfront, hback, List.map_append,
      List.map_cons]
    simp
  keeps := by
    intro i j first second hlt hfirst hsecond hshared
    have hi : i < declared.length := by
      have hj : j < (declared ++ [last]).length := (List.getElem?_eq_some_iff.mp hsecond).1
      rw [List.length_append, List.length_singleton] at hj
      omega
    rw [List.getElem?_append_left hi] at hfirst
    by_cases hj : j < declared.length
    · rw [List.getElem?_append_left hj] at hsecond
      have hearlier := horder.keeps i j first second hlt hfirst hsecond hshared
      exact hearlier.trans ((List.sublist_cons_self _ back).append_left front)
    · have hlast : j = declared.length := by
        have := (List.getElem?_eq_some_iff.mp hsecond).1
        simp at this
        omega
      subst hlast
      have hsame : second = last := by simpa using hsecond.symm
      subst hsame
      have hmem : i ∈ front ++ back := by simpa using horder.perm.mem_iff.mpr (by simpa using hi)
      -- What shares a name with the last declaration does not stand behind it.
      have hnotBack : i ∉ back := by
        intro hback
        have hplaced : some first ∈ behind.map some := by
          rw [hbehind, ← hfirst]
          exact List.mem_map_of_mem hback
        obtain ⟨name, hname, hnameLast⟩ := hshared
        have hwaiting : first ∈ behind := by simpa using hplaced
        exact hdisjoint first hwaiting name hnameLast hname
      have hfront : i ∈ front := (List.mem_append.mp hmem).resolve_right hnotBack
      have hback : declared.length ∈ declared.length :: back := List.mem_cons_self
      have hpair := (List.singleton_sublist.mpr hfront).append
        (List.singleton_sublist.mpr hback)
      exact hpair

/-- Declaring gives the new declaration one place among those that wait. -/
theorem Reorders.declare {order : List Nat} {declared : List Declaration} {queue : Queue}
    (hcovers : queue.Covers) (horder : Reorders order declared queue.declarations)
    (last : Declaration) :
    ∃ next, Reorders next (declared ++ [last]) (queue.declare last).declarations := by
  obtain ⟨before, hbefore, hdeclare⟩ := queue.declarations_declare last
  have hplaced := horder.drained_eq
  rw [hbefore, List.map_append, eq_comm, List.map_eq_append_iff] at hplaced
  obtain ⟨front, back, rfl, hfront, hback⟩ := hplaced
  rw [hbefore] at horder
  rw [hdeclare]
  exact ⟨_, horder.insert hfront.symm hback.symm (disjoint_overtaken hcovers last)⟩

/-- Draining gives all that was declared, in an order that only declarations for
different tables leave. -/
theorem exists_reorders (declarations : List Declaration) :
    ∃ order, Reorders order declarations (empty.declareAll declarations).declarations := by
  induction declarations using List.reverseRecOn with
  | nil => exact ⟨[], reorders_nil⟩
  | append_singleton earlier last ih =>
      obtain ⟨order, horder⟩ := ih
      rw [declareAll_concat]
      exact horder.declare (covers_declareAll covers_empty earlier) last

/-! ## Renamings -/

end Queue

namespace Batch

/-- A batch that takes further actions holds no renaming of its table, and one that
does not ends with its only one. -/
structure RenamesLast (batch : Batch) : Prop where
  unrenamed : batch.isOpen = true → ∀ action ∈ batch.actions, action.isRenameTable = false
  last : ∀ action ∈ batch.actions.dropLast, action.isRenameTable = false

theorem renamesLast_single (table : String) (action : Action) :
    (single table action).RenamesLast where
  unrenamed := by simp [single]
  last := by simp [single]

theorem RenamesLast.append {batch : Batch} (hbatch : batch.RenamesLast)
    (hopen : batch.isOpen = true) (action : Action) : (batch.append action).RenamesLast where
  unrenamed := by
    intro hstays other hmem
    have hactions : other ∈ batch.actions ++ [action] := hmem
    rcases List.mem_append.mp hactions with hearlier | hlast
    · exact hbatch.unrenamed hopen other hearlier
    · rw [List.mem_singleton.mp hlast]
      simpa [Batch.append] using hstays
  last := by
    have hactions : (batch.append action).actions.dropLast = batch.actions :=
      List.dropLast_concat
    rw [hactions]
    exact hbatch.unrenamed hopen

end Batch

namespace Queue

/-- A renaming of a table ends its batch. -/
theorem renamesLast_declareAll (declarations : List Declaration) :
    ∀ batch ∈ (empty.declareAll declarations).batches, batch.RenamesLast := by
  induction declarations using List.reverseRecOn with
  | nil => simp [declareAll, empty]
  | append_singleton earlier last ih =>
      rw [declareAll_concat]
      exact forall_batches_declare (Batch.renamesLast_single ..)
        (fun batch hmem hopen => (ih batch hmem).append (Batch.accepts_iff.mp hopen).1 _) ih

/-! ## One batch for each table -/

/-- The actions declared for a table, in order. -/
def actionsFor (declarations : List Declaration) (table : String) : List Action :=
  (declarations.filter (·.table = table)).map (·.action)

/-- The tables that declarations are made for, in the order of the first
declaration for each. -/
def tablesOf (declarations : List Declaration) : List String :=
  (declarations.map (·.table)).eraseDups

theorem mem_tablesOf (declarations : List Declaration) (table : String) :
    table ∈ tablesOf declarations ↔ table ∈ declarations.map (·.table) :=
  List.mem_eraseDups

theorem tablesOf_concat (declarations : List Declaration) (last : Declaration) :
    tablesOf (declarations ++ [last]) =
      if last.table ∈ tablesOf declarations then tablesOf declarations
      else tablesOf declarations ++ [last.table] := by
  have hmem := mem_tablesOf declarations last.table
  have hconcat : tablesOf (declarations ++ [last]) = tablesOf declarations ++
      ([last.table].removeAll (declarations.map (·.table))).eraseDups := by
    rw [tablesOf, List.map_append, List.map_singleton, List.eraseDups_append, tablesOf]
  by_cases hknown : last.table ∈ tablesOf declarations
  · have hnone : [last.table].removeAll (declarations.map (·.table)) = [] := by
      simpa [List.removeAll] using hmem.mp hknown
    rw [hconcat, if_pos hknown, hnone]
    simp
  · have hnew : [last.table].removeAll (declarations.map (·.table)) = [last.table] := by
      simpa [List.removeAll] using mt hmem.mpr hknown
    rw [hconcat, if_neg hknown, hnew]
    rfl

theorem nodup_tablesOf (declarations : List Declaration) : (tablesOf declarations).Nodup := by
  induction declarations using List.reverseRecOn with
  | nil => exact List.nodup_nil
  | append_singleton earlier last ih =>
      rw [tablesOf_concat]
      split
      · exact ih
      next hnew => exact ih.append (List.nodup_singleton _) (by simpa using hnew)

theorem actionsFor_concat (declarations : List Declaration) (last : Declaration) :
    actionsFor (declarations ++ [last]) =
      Function.update (actionsFor declarations) last.table
        (actionsFor declarations last.table ++ [last.action]) := by
  funext table
  by_cases htable : table = last.table
  · subst htable
    simp [actionsFor]
  · rw [Function.update_of_ne htable]
    simp [actionsFor, Ne.symm htable]

theorem actionsFor_of_notMem {declarations : List Declaration} {table : String}
    (hnone : table ∉ tablesOf declarations) : actionsFor declarations table = [] := by
  rw [mem_tablesOf] at hnone
  simp only [actionsFor, List.map_eq_nil_iff, List.filter_eq_nil_iff, decide_eq_true_eq]
  intro declaration hmem htable
  exact hnone (htable ▸ List.mem_map_of_mem hmem)

/-- A batch that no renaming has closed. -/
def unrenamed (actions : String → List Action) (table : String) : Batch :=
  ⟨table, actions table, [table], true⟩

theorem single_eq_unrenamed {action : Action} (haction : action.isRenameTable = false)
    (table : String) : Batch.single table action = unrenamed (fun _ => [action]) table := by
  cases action <;> first | rfl | cases haction

theorem tableNames_of_not_renameTable {action : Action} (haction : action.isRenameTable = false)
    (table : String) : action.tableNames table = [table] := by
  cases action <;> first | rfl | cases haction

/-- Batches of other tables do not see what is declared for a table. -/
theorem map_unrenamed_update {tables : List String} {table : String} (hother : table ∉ tables)
    (actions : String → List Action) (declared : List Action) :
    tables.map (unrenamed actions) =
      tables.map (unrenamed (Function.update actions table declared)) := by
  refine List.map_congr_left fun other hmem => ?_
  have hne : other ≠ table := fun hsame => hother (hsame ▸ hmem)
  simp [unrenamed, Function.update_of_ne hne]

theorem append_unrenamed {action : Action} (haction : action.isRenameTable = false)
    (actions : String → List Action) (table : String) :
    (unrenamed actions table).append action =
      unrenamed (Function.update actions table (actions table ++ [action])) table := by
  have hnames := tableNames_of_not_renameTable haction table
  simp [unrenamed, Batch.append, hnames, haction]

/-- Among open batches of different tables, an action joins the one of its table. -/
theorem join?_unrenamed {action : Action} (haction : action.isRenameTable = false)
    (actions : String → List Action) (table : String) {tables : List String}
    (hnodup : tables.Nodup) :
    join? table action (tables.map (unrenamed actions)) =
      if table ∈ tables then
        some (tables.map
          (unrenamed (Function.update actions table (actions table ++ [action]))))
      else none := by
  have hnames := tableNames_of_not_renameTable haction table
  induction tables with
  | nil => rfl
  | cons first rest ih =>
      rw [List.nodup_cons] at hnodup
      rw [List.map_cons, join?, hnames]
      by_cases hfirst : first = table
      · subst hfirst
        have hrest := map_unrenamed_update hnodup.1 actions (actions first ++ [action])
        rw [append_unrenamed haction, hrest]
        simp [unrenamed]
      · have hother : table ≠ first := fun hsame => hfirst hsame.symm
        have hkept : unrenamed actions first =
            unrenamed (Function.update actions table (actions table ++ [action])) first := by
          simp [unrenamed, Function.update_of_ne hfirst]
        have htouches : (unrenamed actions first).touches [table] = false := by
          simp [unrenamed, Batch.touches, hfirst]
        rw [htouches, ih hnodup.2, hkept]
        by_cases hmem : table ∈ rest
        · simp [unrenamed, hfirst, hmem]
        · simp [unrenamed, hfirst, hother, hmem]

/-- Without renamings there is one batch for each table, holding its actions. -/
theorem batches_declareAll_unrenamed {declarations : List Declaration}
    (hunrenamed : ∀ declaration ∈ declarations, declaration.action.isRenameTable = false) :
    (empty.declareAll declarations).batches =
      (tablesOf declarations).map (unrenamed (actionsFor declarations)) := by
  induction declarations using List.reverseRecOn with
  | nil => rfl
  | append_singleton earlier last ih =>
      rw [List.forall_mem_append, List.forall_mem_singleton] at hunrenamed
      have hearlier := ih hunrenamed.1
      have hjoin := join?_unrenamed hunrenamed.2 (actionsFor earlier) last.table
        (List.nodup_reverse.mpr (nodup_tablesOf earlier))
      rw [declareAll_concat, declare, push, hearlier, ← List.map_reverse, hjoin,
        tablesOf_concat, actionsFor_concat]
      by_cases hknown : last.table ∈ tablesOf earlier
      · rw [if_pos (List.mem_reverse.mpr hknown), if_pos hknown]
        simp
      · rw [if_neg (by simpa using hknown), if_neg hknown, actionsFor_of_notMem hknown,
          List.map_append, List.map_singleton, single_eq_unrenamed hunrenamed.2]
        have hkept := map_unrenamed_update hknown (actionsFor earlier) [last.action]
        rw [hkept]
        simp [unrenamed]

/-! ## Draining -/

/-- Draining gives every action once, in an order in which declarations that share a
table name keep theirs.  A renaming ends its batch, and without renamings there is
one batch for each table, in the order of their first declarations. -/
theorem drain_declareAll (declarations : List Declaration) :
    (∃ order, Reorders order declarations
        ((empty.declareAll declarations).drain.flatMap Batch.declarations)) ∧
      (∀ batch ∈ (empty.declareAll declarations).drain,
        ∀ action ∈ batch.actions.dropLast, action.isRenameTable = false) ∧
      ((∀ declaration ∈ declarations, declaration.action.isRenameTable = false) →
        (empty.declareAll declarations).drain.map (fun batch => (batch.table, batch.actions)) =
          (tablesOf declarations).map fun table => (table, actionsFor declarations table)) := by
  rw [drain_eq]
  refine ⟨exists_reorders declarations, ?_, ?_⟩
  · intro batch hmem
    exact (renamesLast_declareAll declarations batch hmem).last
  · intro hunrenamed
    rw [batches_declareAll_unrenamed hunrenamed, List.map_map]
    rfl

/-- Declarations for two tables in turn. -/
def alternating : List Declaration :=
  [⟨"species", .dropColumn "origin"⟩, ⟨"planets", .createTable []⟩,
    ⟨"species", .renameColumn "name" "label"⟩, ⟨"planets", .dropTable⟩]

theorem drain_alternating :
    (∀ declaration ∈ alternating, declaration.action.isRenameTable = false) ∧
      (empty.declareAll alternating).drain.map (fun batch => (batch.table, batch.actions)) =
        [("species", [.dropColumn "origin", .renameColumn "name" "label"]),
          ("planets", [.createTable [], .dropTable])] := by
  have hunrenamed : ∀ declaration ∈ alternating, declaration.action.isRenameTable = false := by
    decide
  exact ⟨hunrenamed, (drain_declareAll alternating).2.2 hunrenamed⟩

end Queue

end SchemaMigration
