import SchemaMigration.Proofs.Declaration

/-!
# Exchanging declarations

Declarations for different tables can be exchanged as far as references are not
concerned.  A renaming is different: it redirects every foreign column that
references the old name when it is carried out, and leaves alone what is
declared later.  This file says what becomes of the references when a
declaration moves behind, or in front of, declarations for other tables.
-/

namespace SchemaMigration

namespace Schema

variable {replace : Bool}

/-- Two declarations applied one after another, with the redirections of both
made at the end. -/
theorem apply_bind_apply (first second : Declaration) (schema : Schema) :
    (apply replace first schema).bind (apply replace (second.mapColumns first.follow)) =
      ((perform replace first schema).bind (perform replace second)).map
        (Catalog.mapColumns (second.follow ∘ first.follow)) := by
  rw [apply, Option.bind_map, Option.map_bind]
  congr 1
  funext middle
  rw [Function.comp_apply, apply, perform_mapColumns first.hom_follow,
    Declaration.follow_mapColumns, Option.map_map]
  congr 1
  funext last
  exact Catalog.mapColumns_mapColumns _ _ _

/-- A declaration moves behind one for other tables that it does not redirect;
its own columns are redirected on the way. -/
theorem apply_exchange {first second : Declaration}
    (hdisjoint : ∀ name ∈ first.names, name ∉ second.names)
    (hsecond : second.mapColumns first.follow = second) (schema : Schema) :
    (apply replace first schema).bind (apply replace second) =
      (apply replace second schema).bind (apply replace (first.mapColumns second.follow)) := by
  conv_lhs => rw [← hsecond]
  rw [apply_bind_apply, apply_bind_apply, perform_comm hdisjoint,
    Declaration.follow_comm hdisjoint]

/-- The same behind a list of declarations. -/
theorem applyAll_exchange {declaration : Declaration} {declarations : List Declaration}
    (hdisjoint : ∀ other ∈ declarations, ∀ name ∈ declaration.names, name ∉ other.names)
    (hkept : ∀ other ∈ declarations, other.mapColumns declaration.follow = other)
    (schema : Schema) :
    applyAll replace (declaration :: declarations) schema =
      applyAll replace
        (declarations ++ [declaration.mapColumns (Declaration.followAll declarations)])
        schema := by
  induction declarations generalizing declaration schema with
  | nil => simp [Declaration.followAll_nil, Declaration.mapColumns_id]
  | cons other rest ih =>
      have hfirst := hdisjoint other (by simp)
      have hrest : ∀ next ∈ rest,
          ∀ name ∈ (declaration.mapColumns other.follow).names, name ∉ next.names := by
        intro next hnext
        rw [Declaration.names_mapColumns]
        exact hdisjoint next (List.mem_cons_of_mem _ hnext)
      have hkeptRest : ∀ next ∈ rest,
          next.mapColumns (declaration.mapColumns other.follow).follow = next := by
        intro next hnext
        rw [Declaration.follow_mapColumns]
        exact hkept next (List.mem_cons_of_mem _ hnext)
      calc applyAll replace (declaration :: other :: rest) schema
          = ((apply replace declaration schema).bind (apply replace other)).bind
              (applyAll replace rest) := by
            rw [Option.bind_assoc]
            rfl
        _ = (apply replace other schema).bind
              (applyAll replace (declaration.mapColumns other.follow :: rest)) := by
            rw [apply_exchange hfirst (hkept other (by simp)), Option.bind_assoc]
            rfl
        _ = applyAll replace (other :: rest ++
              [declaration.mapColumns (Declaration.followAll (other :: rest))]) schema := by
            rw [funext (ih hrest hkeptRest), Declaration.mapColumns_mapColumns]
            rfl

/-- Redirecting the columns before a declaration for other tables makes no
difference once they are redirected at the end. -/
theorem apply_redirected {moving declaration : Declaration}
    (hdisjoint : ∀ name ∈ moving.names, name ∉ declaration.names) (schema : Schema) :
    (apply replace declaration (schema.mapColumns moving.follow)).map
        (Catalog.mapColumns moving.follow) =
      (apply replace declaration schema).map (Catalog.mapColumns moving.follow) := by
  have hswap : ∀ catalog : Schema,
      (catalog.mapColumns declaration.follow).mapColumns moving.follow =
        (catalog.mapColumns moving.follow).mapColumns declaration.follow := by
    intro catalog
    rw [Catalog.mapColumns_mapColumns, Catalog.mapColumns_mapColumns,
      Declaration.follow_comm hdisjoint]
  have hredirect : ∀ catalog : Schema,
      (perform replace declaration catalog).map (Catalog.mapColumns moving.follow) =
        perform replace (declaration.mapColumns moving.follow)
          (catalog.mapColumns moving.follow) :=
    fun catalog => (perform_mapColumns moving.hom_follow declaration catalog).symm
  have hlate : ∀ catalog : Schema,
      (apply replace declaration catalog).map (Catalog.mapColumns moving.follow) =
        (perform replace (declaration.mapColumns moving.follow)
          (catalog.mapColumns moving.follow)).map (Catalog.mapColumns declaration.follow) := by
    intro catalog
    rw [← hredirect, apply, Option.map_map, Option.map_map]
    exact congrArg (Option.map · _) (funext hswap)
  rw [hlate, hlate, Catalog.mapColumns_mapColumns, Declaration.follow_follow]

theorem applyAll_redirected {moving : Declaration} {declarations : List Declaration}
    (hdisjoint : ∀ other ∈ declarations, ∀ name ∈ moving.names, name ∉ other.names)
    (schema : Schema) :
    (applyAll replace declarations (schema.mapColumns moving.follow)).map
        (Catalog.mapColumns moving.follow) =
      (applyAll replace declarations schema).map (Catalog.mapColumns moving.follow) := by
  induction declarations generalizing schema with
  | nil =>
      simp only [applyAll_nil, Option.map_some, Catalog.mapColumns_mapColumns,
        Declaration.follow_follow]
  | cons other rest ih =>
      have hrest : ∀ start : Option Schema,
          (start.bind (applyAll replace rest)).map (Catalog.mapColumns moving.follow) =
            ((start.map (Catalog.mapColumns moving.follow)).bind
              (applyAll replace rest)).map (Catalog.mapColumns moving.follow) := by
        intro start
        cases start with
        | none => rfl
        | some next =>
            exact (ih (fun later hlater => hdisjoint later (List.mem_cons_of_mem _ hlater))
              next).symm
      rw [applyAll_cons, applyAll_cons, hrest, hrest (apply replace other schema),
        apply_redirected (hdisjoint other (by simp))]

/-- A renaming moves a table that declarations for other tables do not touch,
before or after them. -/
theorem perform_bind_applyAll {moving : Declaration} {declarations : List Declaration}
    (hmoving : moving.action.isRenameTable = true)
    (hdisjoint : ∀ other ∈ declarations, ∀ name ∈ moving.names, name ∉ other.names)
    (schema : Schema) :
    (perform replace moving schema).bind (applyAll replace declarations) =
      (applyAll replace declarations schema).bind (perform replace moving) := by
  induction declarations generalizing schema with
  | nil => simp
  | cons other rest ih =>
      have hother : (perform replace moving schema).bind (apply replace other) =
          (apply replace other schema).bind (perform replace moving) := by
        have hnatural : ∀ next : Schema,
            perform replace moving (next.mapColumns other.follow) =
              (perform replace moving next).map (Catalog.mapColumns other.follow) := by
          intro next
          rw [← perform_mapColumns other.hom_follow, moving.mapColumns_of_renameTable hmoving]
        calc (perform replace moving schema).bind (apply replace other)
            = ((perform replace moving schema).bind (perform replace other)).map
                (Catalog.mapColumns other.follow) := by
              rw [Option.map_bind]
              rfl
          _ = ((perform replace other schema).bind (perform replace moving)).map
                (Catalog.mapColumns other.follow) := by
              rw [perform_comm (hdisjoint other (by simp))]
          _ = (apply replace other schema).bind (perform replace moving) := by
              rw [apply, Option.map_bind, Option.bind_map]
              congr 1
              funext next
              exact (hnatural next).symm
      rw [applyAll_cons, Option.bind_assoc,
        ← funext (ih fun later hlater => hdisjoint later (List.mem_cons_of_mem _ hlater)),
        ← Option.bind_assoc, ← hother, Option.bind_assoc]
      rfl

/-- A renaming carried out behind declarations for other tables redirects what
it would have left alone in front of them. -/
theorem applyAll_concat_renameTable {moving : Declaration} {declarations : List Declaration}
    (hmoving : moving.action.isRenameTable = true)
    (hdisjoint : ∀ other ∈ declarations, ∀ name ∈ moving.names, name ∉ other.names)
    (schema : Schema) :
    applyAll replace (declarations ++ [moving]) schema =
      (applyAll replace (moving :: declarations) schema).map
        (Catalog.mapColumns moving.follow) := by
  calc applyAll replace (declarations ++ [moving]) schema
      = ((applyAll replace declarations schema).bind (perform replace moving)).map
          (Catalog.mapColumns moving.follow) := by
        rw [applyAll_append, Option.map_bind]
        congr 1
        funext next
        simp [apply]
    _ = ((perform replace moving schema).bind (applyAll replace declarations)).map
          (Catalog.mapColumns moving.follow) := by
        rw [perform_bind_applyAll hmoving hdisjoint]
    _ = (applyAll replace (moving :: declarations) schema).map
          (Catalog.mapColumns moving.follow) := by
        rw [applyAll_cons, apply, Option.bind_map, Option.map_bind, Option.map_bind]
        congr 1
        funext next
        exact (applyAll_redirected hdisjoint next).symm

end Schema

end SchemaMigration
