import SchemaMigration.Proofs.Runs

/-!
# Draining a queue in the order of declaration

A queue is drained batch by batch, which is not the order in which its actions
were declared.  An action overtakes only actions on other tables.  Apart from
the references of columns, a flush therefore does what the declarations do when
they are carried out one at a time.
-/

namespace SchemaMigration

namespace Schema

variable {replace : Bool}

/-- Moving one declaration behind those it overtakes. -/
theorem performAll_declare {queue : Queue} (hcovers : queue.Covers)
    (declaration : Declaration) (f : Column → Column) :
    performAll replace ((queue.declare declaration).declarations.map
        (Declaration.mapColumns f)) =
      performAll replace ((queue.declarations ++ [declaration]).map
        (Declaration.mapColumns f)) := by
  funext schema
  obtain ⟨before, hbefore, hdeclared⟩ := queue.declarations_declare declaration
  have hdisjoint : ∀ other ∈ (queue.overtaken declaration).map (Declaration.mapColumns f),
      ∀ name ∈ (declaration.mapColumns f).names, name ∉ other.names := by
    intro other hmem
    obtain ⟨overtaken, hovertaken, rfl⟩ := List.mem_map.mp hmem
    rw [Declaration.names_mapColumns, Declaration.names_mapColumns]
    exact Queue.disjoint_overtaken hcovers declaration overtaken hovertaken
  rw [hdeclared, hbefore, List.map_append, List.map_cons, performAll_append,
    funext (performAll_comm hdisjoint), ← performAll_append]
  simp

/-- A queue is drained to the same effect as its actions in the order in which
they were declared. -/
theorem performAll_declareAll {queue : Queue} (hcovers : queue.Covers)
    (declarations : List Declaration) (f : Column → Column) :
    performAll replace ((queue.declareAll declarations).declarations.map
        (Declaration.mapColumns f)) =
      performAll replace ((queue.declarations ++ declarations).map
        (Declaration.mapColumns f)) := by
  induction declarations using List.reverseRecOn with
  | nil => simp [Queue.declareAll]
  | append_singleton earlier last ih =>
      have hearlier := Queue.covers_declareAll hcovers earlier
      funext schema
      rw [Queue.declareAll_concat, performAll_declare hearlier, List.map_append,
        performAll_append, ih, ← performAll_append, ← List.map_append, List.append_assoc]

end Schema

namespace Compilation

/-- From an empty queue, a flush gives the schema of the declarations carried out
one at a time, as far as references are left out of account. -/
theorem bare_schema_flush {compilation : Compilation} (hcoherent : compilation.Coherent)
    (hopen : compilation.migrations ≠ []) (hempty : compilation.queue = .empty)
    (declarations : List Declaration) :
    (compilation.declareAll declarations).flush.toOption.map (·.registry.schema.bare) =
      (Schema.performAll compilation.settings.replaceExistingTables declarations
        compilation.registry.schema).map Schema.bare := by
  have hflush := schema_flush (coherent_declareAll hcoherent declarations).opened
  rw [declareAll_eq hopen] at hflush ⊢
  have hnothing : Queue.empty.declarations = [] := rfl
  calc Option.map (fun flushed : Compilation => flushed.registry.schema.bare) _
      = (Schema.applyAll compilation.settings.replaceExistingTables
          (compilation.queue.declareAll declarations).declarations
          compilation.registry.schema).map Schema.bare := by
        rw [← hflush, Option.map_map]
        rfl
    _ = (Schema.performAll compilation.settings.replaceExistingTables declarations
          compilation.registry.schema).map Schema.bare := by
        rw [Schema.bare_applyAll, Schema.bare_performAll, hempty,
          Schema.performAll_declareAll Queue.covers_empty, hnothing, List.nil_append]

/-- A flush succeeds exactly when the declarations since the last one can be
carried out one at a time, in the order in which they were made, and then tracks
the tables that this gives. -/
theorem flush_iff_performAll (settings : Settings) (commands : List Command)
    (declarations : List Declaration)
    (hopen : ((new settings).run commands).migrations ≠ [])
    (hempty : ((new settings).run commands).queue = .empty) :
    ((∃ flushed, (((new settings).run commands).declareAll declarations).flush = .ok flushed) ↔
        ∃ schema, Schema.performAll settings.replaceExistingTables declarations
          ((new settings).run commands).registry.schema = some schema) ∧
      ∀ flushed, (((new settings).run commands).declareAll declarations).flush = .ok flushed →
        flushed.registry.Distinct ∧
          ∃ schema, Schema.performAll settings.replaceExistingTables declarations
              ((new settings).run commands).registry.schema = some schema ∧
            flushed.registry.schema.bare = schema.bare := by
  have hcoherent := coherent_run settings commands
  have hsame := bare_schema_flush hcoherent hopen hempty declarations
  rw [settings_run] at hsame
  change _ = Option.map _ (Schema.performAll settings.replaceExistingTables _ _) at hsame
  have hsound : ∀ flushed,
      (((new settings).run commands).declareAll declarations).flush = .ok flushed →
        ∃ schema, Schema.performAll settings.replaceExistingTables declarations
            ((new settings).run commands).registry.schema = some schema ∧
          flushed.registry.schema.bare = schema.bare := by
    intro flushed hflush
    rw [hflush] at hsame
    obtain ⟨schema, hschema, hbare⟩ := Option.map_eq_some_iff.mp hsame.symm
    exact ⟨schema, hschema, hbare.symm⟩
  refine ⟨⟨?_, ?_⟩, ?_⟩
  · rintro ⟨flushed, hflush⟩
    obtain ⟨schema, hschema, -⟩ := hsound flushed hflush
    exact ⟨schema, hschema⟩
  · rintro ⟨schema, hschema⟩
    rw [hschema] at hsame
    obtain ⟨flushed, hflush, -⟩ := Option.map_eq_some_iff.mp hsame
    exact ⟨flushed, toOption_eq_some_iff.mp hflush⟩
  · intro flushed hflush
    exact ⟨coherent_flush (coherent_declareAll hcoherent declarations) hflush |>.distinct,
      hsound flushed hflush⟩

/-- Declarations for two tables, one of which is renamed ahead of its turn and
then created anew under the old name. -/
def crossing : List Declaration :=
  [⟨"species", .createTable [{ name := "id", type := .identity }]⟩,
    ⟨"people", .createTable [{ name := "id", type := .identity }]⟩,
    ⟨"species", .addColumn { name := "origin", type := .text } none⟩,
    ⟨"species", .renameTable "kinds"⟩,
    ⟨"people", .renameColumn "id" "number"⟩,
    ⟨"species", .createTable [{ name := "id", type := .identity }]⟩]

theorem flush_crossing :
    ((new {}).run [.start]).migrations ≠ [] ∧ ((new {}).run [.start]).queue = .empty ∧
      ∃ flushed, (((new {}).run [.start]).declareAll crossing).flush = .ok flushed ∧
        flushed.registry.Distinct ∧
        ∃ schema, Schema.performAll false crossing
            ((new {}).run [.start]).registry.schema = some schema ∧
          flushed.registry.schema.bare = schema.bare := by
  have hopen : ((new {}).run [.start]).migrations ≠ [] := by decide
  have hempty : ((new {}).run [.start]).queue = .empty := by decide
  have hflush := flush_iff_performAll {} [.start] crossing hopen hempty
  have hperform : (Schema.performAll false crossing
      ((new {}).run [.start]).registry.schema).isSome = true := by decide
  obtain ⟨flushed, hflushed⟩ := hflush.1.mpr (Option.isSome_iff_exists.mp hperform)
  exact ⟨hopen, hempty, flushed, hflushed, hflush.2 flushed hflushed⟩

end Compilation

end SchemaMigration
