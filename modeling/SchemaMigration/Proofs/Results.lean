/-!
# Computations that can fail

A composed computation succeeds step by step and fails where one of its steps does.  A
run over a list stops at the first step that fails, and whatever view of its states the
steps respect, the run respects.
-/

namespace SchemaMigration

section Results

variable {ε α β : Type}

/-- A composed computation that succeeds does so step by step. -/
theorem bind_eq_ok_iff {first : Except ε α} {next : α → Except ε β} {result : β} :
    (first >>= next) = .ok result ↔ ∃ value, first = .ok value ∧ next value = .ok result := by
  cases first with
  | error error => simp [bind, Except.bind]
  | ok value => simp [bind, Except.bind]

/-- A composed computation fails where one of its steps does. -/
theorem bind_eq_error_iff {first : Except ε α} {next : α → Except ε β} {error : ε} :
    (first >>= next) = .error error ↔
      first = .error error ∨ ∃ value, first = .ok value ∧ next value = .error error := by
  cases first with
  | error error => simp [bind, Except.bind]
  | ok value => simp [bind, Except.bind]

/-- Computing on a list that is not empty does so on its first member, then on the
others. -/
theorem mapM_cons_eq_ok {compute : α → Except ε β} {first : α} {rest : List α}
    {results : List β} (hcompute : (first :: rest).mapM compute = .ok results) :
    ∃ result others, compute first = .ok result ∧ rest.mapM compute = .ok others ∧
      results = result :: others := by
  rw [List.mapM_cons] at hcompute
  obtain ⟨result, hfirst, hcompute⟩ := bind_eq_ok_iff.mp hcompute
  obtain ⟨others, hrest, hcompute⟩ := bind_eq_ok_iff.mp hcompute
  cases hcompute
  exact ⟨result, others, hfirst, hrest, rfl⟩

@[simp]
theorem toOption_eq_some_iff {computed : Except ε α} {value : α} :
    computed.toOption = some value ↔ computed = .ok value := by
  cases computed <;> simp [Except.toOption]

theorem toOption_bind (first : Except ε α) (next : α → Except ε β) :
    (first >>= next).toOption = first.toOption.bind fun value => (next value).toOption := by
  cases first <;> rfl

end Results

/-! ## Runs -/

section Runs

variable {ε σ τ ι : Type} {step : σ → ι → Except ε σ} {start : σ} {items : List ι}

/-- Steps that can fail, seen through a view of their state under which each is
a step of another run. -/
theorem toOption_foldlM (view : σ → τ) {run : ι → τ → Option τ}
    (hstep : ∀ state, ∀ item ∈ items,
      (step state item).toOption.map view = run item (view state)) (state : σ) :
    (items.foldlM step state).toOption.map view =
      items.foldlM (fun viewed item => run item viewed) (view state) := by
  induction items generalizing state with
  | nil => rfl
  | cons first rest ih =>
      have hrest := ih fun state item hmem => hstep state item (List.mem_cons_of_mem _ hmem)
      rw [List.foldlM_cons, List.foldlM_cons, toOption_bind, Option.map_bind,
        ← hstep state first List.mem_cons_self, Option.bind_eq_bind, Option.bind_map]
      congr 1
      funext next
      exact hrest next

/-- What every step that succeeds preserves, a run that succeeds preserves. -/
theorem foldlM_preserves (property : σ → Prop)
    (hstep : ∀ state item next, property state → step state item = .ok next → property next)
    {final : σ} (hstart : property start) (hfold : items.foldlM step start = .ok final) :
    property final := by
  induction items generalizing start with
  | nil =>
      cases hfold
      exact hstart
  | cons first rest ih =>
      rw [List.foldlM_cons] at hfold
      obtain ⟨middle, hmiddle, hrest⟩ := bind_eq_ok_iff.mp hfold
      exact ih (hstep start first middle hstart hmiddle) hrest

/-- A run over items stops at a place: the items in front of it succeed, and the item
there fails in the state that they lead to. -/
def StopsAt (step : σ → ι → Except ε σ) (start : σ) (items : List ι) (place : Nat)
    (error : ε) : Prop :=
  ∃ reached item, (items.take place).foldlM step start = .ok reached ∧
    items[place]? = some item ∧ step reached item = .error error

/-- A run fails with the error of the place at which it stops. -/
theorem foldlM_eq_error_iff {error : ε} :
    items.foldlM step start = .error error ↔ ∃ place, StopsAt step start items place error := by
  induction items generalizing start with
  | nil =>
      refine iff_of_false nofun ?_
      rintro ⟨place, reached, item, -, hitem, -⟩
      simp at hitem
  | cons first rest ih =>
      rw [List.foldlM_cons, bind_eq_error_iff]
      constructor
      · rintro (hfirst | ⟨middle, hmiddle, hrest⟩)
        · exact ⟨0, start, first, rfl, rfl, hfirst⟩
        · obtain ⟨place, reached, item, hreached, hitem, herror⟩ := ih.mp hrest
          refine ⟨place + 1, reached, item, ?_, hitem, herror⟩
          rw [List.take_succ_cons, List.foldlM_cons]
          exact bind_eq_ok_iff.mpr ⟨middle, hmiddle, hreached⟩
      · rintro ⟨place, reached, item, hreached, hitem, herror⟩
        cases place with
        | zero =>
            cases hreached
            cases hitem
            exact Or.inl herror
        | succ place =>
            rw [List.take_succ_cons, List.foldlM_cons] at hreached
            obtain ⟨middle, hmiddle, hreached⟩ := bind_eq_ok_iff.mp hreached
            exact Or.inr ⟨middle, hmiddle, ih.mpr ⟨place, reached, item, hreached, hitem, herror⟩⟩

/-- A run that fails has a step that fails. -/
theorem exists_of_foldlM_error {error : ε} (hfold : items.foldlM step start = .error error) :
    ∃ state, ∃ item ∈ items, step state item = .error error := by
  obtain ⟨place, reached, item, -, hitem, herror⟩ := foldlM_eq_error_iff.mp hfold
  exact ⟨reached, item, List.mem_of_getElem? hitem, herror⟩

variable {step' : τ → ι → Except ε τ} {view : σ → τ}

/-- A view that every step respects is respected by a run. -/
theorem foldlM_view
    (hstep : ∀ state item, step' (view state) item = (step state item).map view) (start : σ)
    (items : List ι) :
    items.foldlM step' (view start) = (items.foldlM step start).map view := by
  induction items generalizing start with
  | nil => rfl
  | cons first rest ih =>
      rw [List.foldlM_cons, List.foldlM_cons, hstep]
      cases step start first with
      | error error => rfl
      | ok next => exact ih next

/-- Runs that a view relates stop at the same places. -/
theorem stopsAt_view
    (hstep : ∀ state item, step' (view state) item = (step state item).map view) (start : σ)
    (items : List ι) (place : Nat) (error : ε) :
    StopsAt step' (view start) items place error ↔ StopsAt step start items place error := by
  have hfailed : ∀ state item,
      step' (view state) item = .error error ↔ step state item = .error error := by
    intro state item
    rw [hstep]
    cases step state item <;> simp [Except.map]
  rw [StopsAt, foldlM_view hstep]
  constructor
  · rintro ⟨viewed, item, hreached, hitem, herror⟩
    cases hfold : (items.take place).foldlM step start with
    | error error =>
        rw [hfold] at hreached
        cases hreached
    | ok reached =>
        rw [hfold] at hreached
        cases hreached
        exact ⟨reached, item, hfold, hitem, (hfailed reached item).mp herror⟩
  · rintro ⟨reached, item, hreached, hitem, herror⟩
    refine ⟨view reached, item, ?_, hitem, (hfailed reached item).mpr herror⟩
    rw [hreached]
    rfl

end Runs

end SchemaMigration
