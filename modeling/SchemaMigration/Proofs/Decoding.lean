import SchemaMigration.Proofs.JsonText

/-!
# Values that stand for data

A value stands for what it decodes to, provided that it is read back from its text.
What a decoder ensures of everything it gives holds in lists and in optional fields
as well.
-/

namespace SchemaMigration.Json

/-! ## What a value stands for -/

variable {α : Type} {levels : Nat} {decoder : Decoder α} {x : α} {value : Value}

/-- A value that is read back from its text and can be held within a depth of nesting. -/
structure Value.Kept (levels : Nat) (value : Value) : Prop where
  readable : value.Readable
  held : value.isHeldWithin levels

/-- A value that is kept and decodes to `x`. -/
structure Represents (levels : Nat) (decoder : Decoder α) (x : α) (value : Value) : Prop
    extends value.Kept levels where
  decode : decoder value = some x

theorem Value.kept_null (levels : Nat) : Value.null.Kept levels where
  readable := readable_scalar trivial
  held := by simp only [isHeldWithin]

theorem Value.kept_record {members : List (String × Value)}
    (hmembers : ∀ member ∈ members, member.2.Kept levels) : (record members).Kept (levels + 1) where
  readable := readable_record fun member hmember => (hmembers member hmember).readable
  held := by
    rw [isHeldWithin_record]
    exact List.all_eq_true.mpr fun member hmember => (hmembers member hmember).held

theorem Value.kept_optional (name : String) {given : Option α} {encode : α → Value}
    (hgiven : ∀ x ∈ given, (encode x).Kept levels) :
    ∀ member ∈ (given.map fun x => (name, encode x)).toList, member.2.Kept levels := by
  intro member hmember
  obtain ⟨x, hx, rfl⟩ := Option.map_eq_some_iff.mp (Option.mem_toList.mp hmember)
  exact hgiven x hx

namespace Represents

theorem text (levels : Nat) (text : String) :
    Represents levels Decoder.text text (.string text) where
  decode := rfl
  readable := Value.readable_scalar rfl
  held := by rw [Value.isHeldWithin]; rfl

theorem flag (levels : Nat) (flag : Bool) :
    Represents levels Decoder.flag flag (.bool flag) where
  decode := rfl
  readable := Value.readable_scalar trivial
  held := by simp only [Value.isHeldWithin]

theorem word (levels : Nat) {n : Int} (hword : Decoder.isWord n) :
    Represents levels Decoder.word n (.int n) where
  decode := by
    rw [Decoder.word, Numeral.integer?_ofInt, Option.filter_some, if_pos hword]
  readable := Value.readable_scalar ⟨n, rfl⟩
  held := by
    rw [Value.isHeldWithin]
    exact Numeral.isSome_real?_ofInt hword

theorem list {xs : List α} {encode : α → Value}
    (hitems : ∀ item ∈ xs, Represents levels decoder item (encode item)) :
    Represents (levels + 1) (Decoder.list decoder) xs (.array (xs.map encode)) where
  decode := by
    rw [Decoder.list]
    induction xs with
    | nil => rfl
    | cons first rest ih =>
      rw [List.map_cons, List.mapM_cons, (hitems first List.mem_cons_self).decode,
        ih fun item hitem => hitems item (List.mem_cons_of_mem first hitem)]
      rfl
  readable := by
    refine Value.readable_array fun item hitem => ?_
    obtain ⟨x, hx, rfl⟩ := List.mem_map.mp hitem
    exact (hitems x hx).readable
  held := by
    rw [Value.isHeldWithin_array, List.all_map]
    exact List.all_eq_true.mpr fun item hitem => (hitems item hitem).held

end Represents

namespace Decoder

variable {encode : α → Value} {given : Option α}

theorem nullable_of_ne (hne : value ≠ .null) :
    nullable decoder value = (decoder value).map some := by
  unfold nullable
  split
  · exact absurd rfl hne
  · rfl

/-- A field that is left out when it is absent. -/
theorem optional_map (hgiven : ∀ x ∈ given, decoder (encode x) = some x ∧ encode x ≠ .null) :
    optional decoder (given.map encode) = some given := by
  cases given with
  | none => rfl
  | some x =>
    obtain ⟨hdecode, hne⟩ := hgiven x rfl
    rw [Option.map_some, optional, orElse, nullable_of_ne hne, hdecode, Option.map_some]

/-! ## What can be decoded -/

variable {P : α → Prop}

/-- Everything that is decoded has a property. -/
def Ensures (decoder : Decoder α) (P : α → Prop) : Prop :=
  ∀ ⦃value x⦄, decoder value = some x → P x

theorem Ensures.required (hensures : Ensures decoder P) {found : Option Value} {x : α}
    (hfound : required decoder found = some x) : P x := by
  obtain ⟨value, -, hvalue⟩ := Option.bind_eq_some_iff.mp hfound
  exact hensures hvalue

theorem Ensures.orElse (hensures : Ensures decoder P) {absent : α} (habsent : P absent)
    {found : Option Value} {x : α} (hfound : orElse absent decoder found = some x) : P x := by
  cases found with
  | none => exact Option.some.inj hfound ▸ habsent
  | some value => exact hensures hfound

theorem Ensures.nullable (hensures : Ensures decoder P) :
    Ensures (nullable decoder) fun given => ∀ x ∈ given, P x := by
  intro value given hvalue
  unfold Decoder.nullable at hvalue
  split at hvalue
  · cases hvalue
    nofun
  · obtain ⟨x, hx, rfl⟩ := Option.map_eq_some_iff.mp hvalue
    exact fun y hy => Option.some.inj hy ▸ hensures hx

theorem Ensures.optional (hensures : Ensures decoder P) {found : Option Value} {given : Option α}
    (hfound : optional decoder found = some given) : ∀ x ∈ given, P x := by
  have habsent : ∀ x ∈ (none : Option α), P x := nofun
  exact hensures.nullable.orElse habsent hfound

theorem Ensures.list (hensures : Ensures decoder P) :
    Ensures (list decoder) fun xs => ∀ x ∈ xs, P x := by
  intro value xs hvalue
  unfold Decoder.list at hvalue
  split at hvalue
  · rename_i items
    induction items generalizing xs with
    | nil => cases hvalue; nofun
    | cons first rest ih =>
      rw [List.mapM_cons] at hvalue
      obtain ⟨x, hx, hvalue⟩ := Option.bind_eq_some_iff.mp hvalue
      obtain ⟨others, hothers, hvalue⟩ := Option.bind_eq_some_iff.mp hvalue
      cases hvalue
      exact List.forall_mem_cons.mpr ⟨hensures hx, ih hothers⟩
  · cases hvalue

theorem ensures_word : Ensures word fun n => isWord n := by
  intro value n hvalue
  unfold word at hvalue
  split at hvalue
  · exact (Option.filter_eq_some_iff.mp hvalue).2
  · cases hvalue

end Decoder

end SchemaMigration.Json
