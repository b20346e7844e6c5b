import SchemaMigration.Proofs.Decoding
import SchemaMigration.Plan.Basic

/-!
# Plans and their texts

Everything in a plan is written as a value that decodes to it again, and that can be
held while the name of an operation is not known.  So a plan is read back from its
text, unless there are doubles in it, which may be rounded.
-/

namespace SchemaMigration

open SchemaMigration.Json

/-! ## Literals and columns -/

namespace Literal

def isReal : Literal → Bool
  | real _ => true
  | _ => false

/-- Whether an integer fits sixty-four bits. -/
def fitsWord : Literal → Bool
  | integer n => Decoder.isWord n
  | _ => true

/-- A literal that is written without a loss. -/
structure Exact (literal : Literal) : Prop where
  isReal_eq : literal.isReal = false
  fitsWord : literal.fitsWord

theorem Exact.represents {literal : Literal} (hexact : literal.Exact) (levels : Nat) :
    Represents levels ofJson? literal literal.toJson := by
  obtain ⟨hreal, hword⟩ := hexact
  cases literal with
  | bool flag => exact ⟨(Represents.flag levels flag).toKept, rfl⟩
  | integer n =>
    have hn := Represents.word levels hword
    have hdecode := hn.decode
    exact ⟨hn.toKept, by rw [toJson, ofJson?, ofNumeral?, hdecode]⟩
  | real x => cases hreal
  | text text => exact ⟨(Represents.text levels text).toKept, rfl⟩

theorem Exact.toJson_ne_null {literal : Literal} (hexact : literal.Exact) :
    literal.toJson ≠ .null := by
  cases literal with
  | real x => cases hexact.isReal_eq
  | _ => nofun

end Literal

namespace BoundValue

def literals : BoundValue → List Literal
  | null => []
  | literal value => [value]

theorem represents {value : BoundValue} (hexact : ∀ literal ∈ value.literals, literal.Exact)
    (levels : Nat) : Represents levels ofJson? value value.toJson := by
  cases value with
  | null => exact ⟨Value.kept_null levels, rfl⟩
  | literal value =>
    have hvalue := hexact value List.mem_cons_self
    have hliteral := hvalue.represents levels
    refine ⟨hliteral.toKept, ?_⟩
    rw [toJson, ofJson?, hliteral.decode]
    · rfl
    · exact hvalue.toJson_ne_null

end BoundValue

theorem ColumnType.represents (type : ColumnType) (held : Bool) (levels : Nat) :
    Represents levels (ColumnType.ofJson? held) type type.toJson where
  toKept := (Represents.text levels type.name).toKept
  decode := by
    change ofName? type.name = some type
    cases type <;> rfl

namespace Column

def literals (column : Column) : List Literal := column.default.toList

theorem found_toJson (column : Column) :
    Record.of? fields column.toJson = some ⟨false,
      [some (.string column.name), some column.type.toJson, some (.bool column.primaryKey),
        some (.bool column.autoIncrement), some (.bool column.notNull),
        some (.bool column.unique), column.default.map Literal.toJson,
        column.references.map Value.string]⟩ := by
  obtain ⟨name, type, primaryKey, autoIncrement, notNull, unique, default, references⟩ := column
  rw [toJson, Record.of?_record]
  · cases default <;> cases references <;> rfl
  · cases default <;> cases references <;> simp

theorem represents {column : Column} (hexact : ∀ literal ∈ column.literals, literal.Exact)
    (held : Bool) (levels : Nat) :
    Represents (levels + 1) (ofJson? held) column column.toJson where
  toKept := by
    have hdefault := Value.kept_optional "default" fun literal hliteral =>
      ((hexact literal (Option.mem_toList.mpr hliteral)).represents levels).toKept
    have hreferences := Value.kept_optional "references"
      fun table (_ : table ∈ column.references) => (Represents.text levels table).toKept
    refine Value.kept_record (List.forall_mem_append.mpr
      ⟨List.forall_mem_append.mpr ⟨?_, hdefault⟩, hreferences⟩)
    simp only [List.forall_mem_cons, List.not_mem_nil, false_imp_iff, implies_true, and_true]
    exact ⟨(Represents.text levels column.name).toKept, (column.type.represents held levels).toKept,
      (Represents.flag levels _).toKept, (Represents.flag levels _).toKept,
      (Represents.flag levels _).toKept, (Represents.flag levels _).toKept⟩
  decode := by
    have hdefault : Decoder.optional Literal.ofJson? (column.default.map Literal.toJson) =
        some column.default :=
      Decoder.optional_map fun literal hliteral =>
        have hliteral := hexact literal (Option.mem_toList.mpr hliteral)
        ⟨(hliteral.represents 0).decode, hliteral.toJson_ne_null⟩
    have hreferences : Decoder.optional Decoder.text (column.references.map Value.string) =
        some column.references :=
      Decoder.optional_map fun _ _ => ⟨rfl, nofun⟩
    have htype := (column.type.represents held 0).decode
    rw [ofJson?, found_toJson]
    simp [Decoder.required, Decoder.orElse, Decoder.text, Decoder.flag, htype, hdefault,
      hreferences]

end Column

namespace CopyParams

def literals (params : CopyParams) : List Literal := params.coalesce.toList

theorem found_toJson (params : CopyParams) :
    Record.of? fields params.toJson = some ⟨false,
      [params.fillFrom.map Value.string, params.coalesce.map Literal.toJson]⟩ := by
  obtain ⟨fillFrom, coalesce⟩ := params
  rw [toJson, Record.of?_record]
  · cases fillFrom <;> cases coalesce <;> rfl
  · cases fillFrom <;> cases coalesce <;> simp

theorem represents {params : CopyParams} (hexact : ∀ literal ∈ params.literals, literal.Exact)
    (levels : Nat) : Represents (levels + 1) ofJson? params params.toJson where
  toKept := by
    have hfillFrom := Value.kept_optional "fill_from" fun column (_ : column ∈ params.fillFrom) =>
      (Represents.text levels column).toKept
    have hcoalesce := Value.kept_optional "coalesce" fun literal hliteral =>
      ((hexact literal (Option.mem_toList.mpr hliteral)).represents levels).toKept
    exact Value.kept_record (List.forall_mem_append.mpr ⟨hfillFrom, hcoalesce⟩)
  decode := by
    have hfillFrom : Decoder.optional Decoder.text (params.fillFrom.map Value.string) =
        some params.fillFrom :=
      Decoder.optional_map fun _ _ => ⟨rfl, nofun⟩
    have hcoalesce : Decoder.optional Literal.ofJson? (params.coalesce.map Literal.toJson) =
        some params.coalesce :=
      Decoder.optional_map fun literal hliteral =>
        have hliteral := hexact literal (Option.mem_toList.mpr hliteral)
        ⟨(hliteral.represents 0).decode, hliteral.toJson_ne_null⟩
    rw [ofJson?, found_toJson]
    simp [hfillFrom, hcoalesce]

end CopyParams

/-! ## Operations -/

namespace Operation

/-- The literals of an operation. -/
def literals : Operation → List Literal
  | createTable _ columns => columns.flatMap Column.literals
  | addColumn _ column params => column.literals ++ params.toList.flatMap CopyParams.literals
  | changeColumn _ _ definition params =>
      definition.toList.flatMap Column.literals ++ params.toList.flatMap CopyParams.literals
  | sql _ values => values.flatMap BoundValue.literals
  | _ => []

theorem op_notMem (operation : Operation) : "op" ∉ operation.named.2.map (·.1) := by
  cases operation <;> simp [named]

theorem nodup_members (operation : Operation) : (operation.named.2.map (·.1)).Nodup := by
  cases operation <;> simp [named]

/-- The fields of an operation are its members. -/
theorem lookup_fields (operation : Operation) :
    (fields operation.named.1).map (operation.named.2.lookup ·) =
      operation.named.2.map fun member => some member.2 := by
  cases operation <;> rfl

/-- A field that is null when it is absent. -/
theorem optional_orNull {α : Type} {decoder : Decoder α} {encode : α → Value} {given : Option α}
    (hgiven : ∀ x ∈ given, decoder (encode x) = some x ∧ encode x ≠ .null) :
    Decoder.optional decoder (some (orNull (given.map encode))) = some given := by
  cases given with
  | none => rfl
  | some x => exact Decoder.optional_map hgiven

/-- A column that may be absent. -/
theorem represents_column {definition : Option Column}
    (hexact : ∀ literal ∈ definition.toList.flatMap Column.literals, literal.Exact) (levels : Nat) :
    (orNull (definition.map Column.toJson)).Kept (levels + 1) ∧
      Decoder.optional (Column.ofJson? true) (some (orNull (definition.map Column.toJson))) =
        some definition := by
  have hgiven : ∀ column ∈ definition,
      Represents (levels + 1) (Column.ofJson? true) column column.toJson :=
    fun column hcolumn => Column.represents
      (List.forall_mem_flatMap.mp hexact column (Option.mem_toList.mpr hcolumn)) true levels
  refine ⟨?_, optional_orNull fun column hcolumn => ⟨(hgiven column hcolumn).decode, nofun⟩⟩
  cases definition with
  | none => exact Value.kept_null _
  | some column => exact (hgiven column rfl).toKept

/-- Parameters that may be absent. -/
theorem represents_params {params : Option CopyParams}
    (hexact : ∀ literal ∈ params.toList.flatMap CopyParams.literals, literal.Exact)
    (levels : Nat) :
    (orNull (params.map CopyParams.toJson)).Kept (levels + 1) ∧
      Decoder.optional CopyParams.ofJson? (some (orNull (params.map CopyParams.toJson))) =
        some params := by
  have hgiven : ∀ given ∈ params, Represents (levels + 1) CopyParams.ofJson? given given.toJson :=
    fun given hmem => CopyParams.represents
      (List.forall_mem_flatMap.mp hexact given (Option.mem_toList.mpr hmem)) levels
  refine ⟨?_, optional_orNull fun given hmem => ⟨(hgiven given hmem).decode, nofun⟩⟩
  cases params with
  | none => exact Value.kept_null _
  | some given => exact (hgiven given rfl).toKept

theorem represents_members {operation : Operation}
    (hexact : ∀ literal ∈ operation.literals, literal.Exact) (levels : Nat) :
    (∀ member ∈ operation.named.2, member.2.Kept (levels + 2)) ∧
    ofFields? operation.named.1 (operation.named.2.map fun member => some member.2) =
      some operation := by
  have htext := fun text => (Represents.text (levels + 2) text).toKept
  cases operation with
  | createTable table columns =>
    have hcolumns : Represents (levels + 2) (Decoder.list (Column.ofJson? true)) columns
        (.array (columns.map Column.toJson)) :=
      .list fun column hcolumn =>
        Column.represents (List.forall_mem_flatMap.mp hexact column hcolumn) true levels
    have hdecode := hcolumns.decode
    constructor
    · simp [named, htext, hcolumns.toKept]
    · simp [ofFields?, named, Decoder.required, Decoder.text, hdecode]
  | addColumn table column params =>
    obtain ⟨hcolumn, hparams⟩ := List.forall_mem_append.mp hexact
    have hcolumn := Column.represents hcolumn true (levels + 1)
    obtain ⟨hkept, hdecode⟩ := represents_params hparams (levels + 1)
    constructor
    · simp [named, htext, hkept, hcolumn.toKept]
    · simp [ofFields?, named, Decoder.required, Decoder.text, hcolumn.decode, hdecode]
  | changeColumn table name definition params =>
    obtain ⟨hdefinition, hparams⟩ := List.forall_mem_append.mp hexact
    obtain ⟨hkept, hdecode⟩ := represents_column hdefinition (levels + 1)
    obtain ⟨hkeptParams, hdecodeParams⟩ := represents_params hparams (levels + 1)
    constructor
    · simp [named, htext, hkept, hkeptParams]
    · simp [ofFields?, named, Decoder.required, Decoder.text, hdecode, hdecodeParams]
  | sql query values =>
    have hvalues : Represents (levels + 2) (Decoder.list BoundValue.ofJson?) values
        (.array (values.map BoundValue.toJson)) :=
      .list fun value hvalue =>
        BoundValue.represents (List.forall_mem_flatMap.mp hexact value hvalue) (levels + 1)
    have hdecode := hvalues.decode
    constructor
    · simp [named, htext, hvalues.toKept]
    · simp [ofFields?, named, Decoder.required, Decoder.orElse, Decoder.text, hdecode]
  | dropTable table => exact ⟨by simp [named, htext], rfl⟩
  | renameTable table new => exact ⟨by simp [named, htext], rfl⟩
  | dropColumn table name => exact ⟨by simp [named, htext], rfl⟩
  | renameColumn table old new => exact ⟨by simp [named, htext], rfl⟩

theorem represents {operation : Operation}
    (hexact : ∀ literal ∈ operation.literals, literal.Exact) (levels : Nat) :
    Represents (levels + 3) (ofJson? (levels + 3)) operation operation.toJson := by
  obtain ⟨hmembers, hfields⟩ := represents_members hexact levels
  have hkept : operation.toJson.Kept (levels + 3) := by
    rw [toJson]
    exact Value.kept_record
      (List.forall_mem_cons.mpr ⟨(Represents.text (levels + 2) _).toKept, hmembers⟩)
  have huntag := Value.untag?_record "op" operation.named.1 operation.op_notMem
  have hof := Record.of?_record operation.nodup_members (fields operation.named.1)
  refine ⟨hkept, ?_⟩
  rw [ofJson?, hkept.held, toJson, huntag]
  simp only [Option.bind_eq_bind, Option.bind_some, hof, lookup_fields, hfields]
  rfl

end Operation

/-! ## Plans -/

theorem HistoryLayout.represents (layout : HistoryLayout) (levels : Nat) :
    Represents levels ofJson? layout layout.toJson where
  toKept := (Represents.text levels layout.name).toKept
  decode := by
    change ofName? layout.name = some layout
    cases layout <;> rfl

theorem Settings.represents {settings : Settings}
    (hword : Decoder.isWord settings.firstMigrationId) (levels : Nat) :
    Represents (levels + 1) ofJson? settings settings.toJson where
  toKept := by
    refine Value.kept_record ?_
    simp only [List.forall_mem_cons, List.not_mem_nil, false_imp_iff, implies_true, and_true]
    exact ⟨(Represents.text levels _).toKept, (Represents.text levels _).toKept,
      (Represents.text levels _).toKept, (Represents.word levels hword).toKept,
      (Represents.flag levels _).toKept, (settings.migrationTable.represents levels).toKept,
      (Represents.flag levels _).toKept⟩
  decode := by
    have hlayout := (settings.migrationTable.represents 0).decode
    have hfirst := (Represents.word 0 hword).decode
    have hfound : Record.of? fields settings.toJson = some ⟨false,
      [some (.string settings.appVersion), some (.string settings.dialect),
        some (.string settings.dialectVersion), some (.int settings.firstMigrationId),
        some (.bool settings.ignoreTransactionStatements),
        some settings.migrationTable.toJson, some (.bool settings.replaceExistingTables)]⟩ := by
      rw [toJson, Record.of?_record (by simp)]
      rfl
    rw [ofJson?, hfound]
    simp [Decoder.orElse, Decoder.text, Decoder.flag, hlayout, hfirst]

namespace DeclaredMigration

def literals (migration : DeclaredMigration) : List Literal :=
  migration.operations.flatMap Operation.literals

theorem represents {migration : DeclaredMigration}
    (hexact : ∀ literal ∈ migration.literals, literal.Exact) (levels : Nat) :
    Represents (levels + 5) (ofJson? (levels + 5)) migration migration.toJson := by
  have hoperations : Represents (levels + 4)
      (Decoder.list (Operation.ofJson? (levels + 3))) migration.operations
      (.array (migration.operations.map Operation.toJson)) :=
    .list fun operation hoperation =>
      Operation.represents (List.forall_mem_flatMap.mp hexact operation hoperation) levels
  have hdecode := hoperations.decode
  refine ⟨Value.kept_record (List.forall_mem_singleton.mpr hoperations.toKept), ?_⟩
  have hfound : Record.of? fields migration.toJson = some ⟨false,
      [some (.array (migration.operations.map Operation.toJson))]⟩ := by
    rw [toJson, Record.of?_record (by simp)]
    rfl
  rw [ofJson?, hfound]
  simp [Decoder.orElse, hdecode]

end DeclaredMigration

namespace Plan

/-- All the literals and bound values of a plan. -/
def literals (plan : Plan) : List Literal :=
  plan.migrations.flatMap DeclaredMigration.literals

theorem represents {plan : Plan} (hexact : ∀ literal ∈ plan.literals, literal.Exact)
    (hword : Decoder.isWord plan.settings.firstMigrationId) :
    Represents 127 ofJson? plan plan.toJson := by
  have hmigrations : Represents 126
      (Decoder.list (DeclaredMigration.ofJson? 125)) plan.migrations
      (.array (plan.migrations.map DeclaredMigration.toJson)) :=
    .list fun migration hmigration =>
      DeclaredMigration.represents (List.forall_mem_flatMap.mp hexact migration hmigration) 120
  have hsettings := Settings.represents hword 125
  have hdecode := hmigrations.decode
  have hdecodeSettings := hsettings.decode
  refine ⟨Value.kept_record (List.forall_mem_cons.mpr ⟨hsettings.toKept,
    List.forall_mem_singleton.mpr hmigrations.toKept⟩), ?_⟩
  have hfound : Record.of? fields plan.toJson = some ⟨false,
      [some plan.settings.toJson,
        some (.array (plan.migrations.map DeclaredMigration.toJson))]⟩ := by
    rw [toJson, Record.of?_record (by simp)]
    rfl
  rw [ofJson?, hfound]
  simp [Decoder.orElse, nestingLimit, hdecode, hdecodeSettings]

end Plan

/-! ## What can be decoded -/

open Json.Decoder

theorem Literal.ensures_fitsWord : Ensures ofJson? fun literal => literal.fitsWord := by
  intro value literal hvalue
  unfold ofJson? at hvalue
  split at hvalue
  · cases hvalue; rfl
  · rename_i numeral
    unfold ofNumeral? at hvalue
    split at hvalue
    · rename_i n hn
      cases hvalue
      exact ensures_word hn
    · obtain ⟨x, -, rfl⟩ := Option.map_eq_some_iff.mp hvalue
      rfl
  · obtain ⟨text, -, rfl⟩ := Option.map_eq_some_iff.mp hvalue
    rfl
  · cases hvalue

/-- The integers among the literals fit sixty-four bits. -/
def FitWords (literals : List Literal) : Prop := ∀ literal ∈ literals, literal.fitsWord

theorem BoundValue.ensures_fitWords : Ensures ofJson? fun value => FitWords value.literals := by
  intro value bound hvalue
  unfold ofJson? at hvalue
  split at hvalue
  · cases hvalue
    nofun
  · obtain ⟨literal, hliteral, rfl⟩ := Option.map_eq_some_iff.mp hvalue
    exact List.forall_mem_singleton.mpr (Literal.ensures_fitsWord hliteral)

theorem fitWords_toList {given : Option Literal} (hgiven : ∀ literal ∈ given, literal.fitsWord) :
    FitWords given.toList :=
  fun literal hliteral => hgiven literal (Option.mem_toList.mp hliteral)

theorem Column.ensures_fitWords (held : Bool) :
    Ensures (ofJson? held) fun column => FitWords column.literals := by
  intro value column hvalue
  obtain ⟨record, -, hvalue⟩ := Option.bind_eq_some_iff.mp hvalue
  split at hvalue
  · simp only [Option.bind_eq_bind, Option.bind_eq_some_iff] at hvalue
    obtain ⟨_, -, _, -, _, -, _, -, _, -, _, -, default, hdefault, _, -, hvalue⟩ := hvalue
    cases hvalue
    exact fitWords_toList (Literal.ensures_fitsWord.optional hdefault)
  · cases hvalue

theorem CopyParams.ensures_fitWords : Ensures ofJson? fun params => FitWords params.literals := by
  intro value params hvalue
  obtain ⟨record, -, hvalue⟩ := Option.bind_eq_some_iff.mp hvalue
  split at hvalue
  · simp only [Option.bind_eq_bind, Option.bind_eq_some_iff] at hvalue
    obtain ⟨_, -, coalesce, hcoalesce, hvalue⟩ := hvalue
    cases hvalue
    exact fitWords_toList (Literal.ensures_fitsWord.optional hcoalesce)
  · cases hvalue

namespace Operation

theorem fitWords_of_ofFields? {name : String} {found : List (Option Value)}
    {operation : Operation} (hfound : ofFields? name found = some operation) :
    FitWords operation.literals := by
  have hcolumns := (Column.ensures_fitWords true).list
  have hvalues := BoundValue.ensures_fitWords.list
  have hcolumn {found column} (h : optional (Column.ofJson? true) found = some column) :
      FitWords (column.toList.flatMap Column.literals) :=
    List.forall_mem_flatMap.mpr fun given hgiven =>
      (Column.ensures_fitWords true).optional h given (Option.mem_toList.mp hgiven)
  have hparams {found params} (h : optional CopyParams.ofJson? found = some params) :
      FitWords (params.toList.flatMap CopyParams.literals) :=
    List.forall_mem_flatMap.mpr fun given hgiven =>
      CopyParams.ensures_fitWords.optional h given (Option.mem_toList.mp hgiven)
  unfold ofFields? at hfound
  split at hfound <;>
    simp only [Option.bind_eq_bind, Option.bind_eq_some_iff, reduceCtorEq] at hfound
  · obtain ⟨_, -, columns, hfound, h⟩ := hfound
    cases h
    exact List.forall_mem_flatMap.mpr (hcolumns.required hfound)
  · obtain ⟨_, -, h⟩ := hfound
    cases h
    nofun
  · obtain ⟨_, -, _, -, h⟩ := hfound
    cases h
    nofun
  · obtain ⟨_, -, column, hfound, params, hfoundParams, h⟩ := hfound
    cases h
    exact List.forall_mem_append.mpr
      ⟨(Column.ensures_fitWords true).required hfound, hparams hfoundParams⟩
  · obtain ⟨_, -, _, -, definition, hfound, params, hfoundParams, h⟩ := hfound
    cases h
    exact List.forall_mem_append.mpr ⟨hcolumn hfound, hparams hfoundParams⟩
  · obtain ⟨_, -, _, -, h⟩ := hfound
    cases h
    nofun
  · obtain ⟨_, -, _, -, _, -, h⟩ := hfound
    cases h
    nofun
  · obtain ⟨_, -, values, hfound, h⟩ := hfound
    cases h
    exact List.forall_mem_flatMap.mpr (hvalues.orElse (List.forall_mem_nil _) hfound)

theorem ensures_fitWords (levels : Nat) :
    Ensures (ofJson? levels) fun operation => FitWords operation.literals := by
  intro value operation hvalue
  unfold ofJson? at hvalue
  split at hvalue
  · cases hvalue
  · simp only [Option.bind_eq_bind, Option.bind_eq_some_iff] at hvalue
    obtain ⟨_, -, _, -, hfields⟩ := hvalue
    exact fitWords_of_ofFields? hfields

end Operation

theorem DeclaredMigration.ensures_fitWords (levels : Nat) :
    Ensures (ofJson? levels) fun migration => FitWords migration.literals := by
  intro value migration hvalue
  obtain ⟨record, -, hvalue⟩ := Option.bind_eq_some_iff.mp hvalue
  split at hvalue
  · simp only [Option.bind_eq_bind, Option.bind_eq_some_iff] at hvalue
    obtain ⟨operations, hoperations, hvalue⟩ := hvalue
    cases hvalue
    exact List.forall_mem_flatMap.mpr
      ((Operation.ensures_fitWords _).list.orElse (List.forall_mem_nil _) hoperations)
  · cases hvalue

theorem Settings.ensures_isWord :
    Ensures ofJson? fun settings => Decoder.isWord settings.firstMigrationId := by
  intro value settings hvalue
  obtain ⟨record, -, hvalue⟩ := Option.bind_eq_some_iff.mp hvalue
  split at hvalue
  · simp only [Option.bind_eq_bind, Option.bind_eq_some_iff] at hvalue
    obtain ⟨_, -, _, -, _, -, first, hfirst, _, -, _, -, _, -, hvalue⟩ := hvalue
    cases hvalue
    exact ensures_word.orElse rfl hfirst
  · cases hvalue

namespace Plan

/-- A plan whose integers fit sixty-four bits. -/
structure IntegersFit (plan : Plan) : Prop where
  first : Decoder.isWord plan.settings.firstMigrationId
  literals : FitWords plan.literals

theorem ensures_integersFit : Ensures ofJson? IntegersFit := by
  intro value plan hvalue
  obtain ⟨record, -, hvalue⟩ := Option.bind_eq_some_iff.mp hvalue
  split at hvalue
  · simp only [Option.bind_eq_bind, Option.bind_eq_some_iff] at hvalue
    obtain ⟨settings, hsettings, migrations, hmigrations, hvalue⟩ := hvalue
    cases hvalue
    constructor
    · exact Settings.ensures_isWord.orElse rfl hsettings
    · exact List.forall_mem_flatMap.mpr
        ((DeclaredMigration.ensures_fitWords _).list.orElse (List.forall_mem_nil _) hmigrations)
  · cases hvalue

/-- A plan without doubles whose integers fit sixty-four bits is read back from its text.
What a text decodes to has no other integers, so its own text decodes to it again. -/
theorem reads_back {plan : Plan} (hreal : ∀ literal ∈ plan.literals, literal.isReal = false) :
    (plan.IntegersFit → parse? plan.write = some plan) ∧
      ∀ text, parse? text = some plan → parse? plan.write = some plan := by
  have hback (hfit : plan.IntegersFit) : parse? plan.write = some plan := by
    have hexact : ∀ literal ∈ plan.literals, literal.Exact := fun literal hliteral =>
      ⟨hreal literal hliteral, hfit.literals literal hliteral⟩
    have hplan := represents hexact hfit.first
    rw [parse?, write, Value.parse?_write hplan.readable, Option.bind_some, hplan.decode]
  -- A decoder takes no integer that is wider, so nothing has to be assumed of a text.
  refine ⟨hback, fun text htext => hback ?_⟩
  obtain ⟨value, -, hvalue⟩ := Option.bind_eq_some_iff.mp htext
  exact ensures_integersFit hvalue

/-- Operations of every kind, with parameters that are absent, empty and partly filled,
and literals and bound values of every kind but doubles. -/
def varied : Plan where
  settings := { appVersion := "1.0 \"beta\"\n", firstMigrationId := -9223372036854775808 }
  migrations :=
    [{ operations :=
        [.createTable "people" [{ name := "id", type := .identity },
            { name := "né\\e", type := .text, default := some (.text "\x00 \x7f é 𝄞") },
            { name := "home", type := .foreign, references := some "places" }],
          .addColumn "people" { name := "a", type := .integer, default := some (.integer (-7)) }
            none,
          .addColumn "people" { name := "b", type := .integer } (some {}),
          .addColumn "people" { name := "c", type := .real }
            (some { coalesce := some (.bool false) }),
          .changeColumn "people" "b" none (some { fillFrom := some "a" })] },
      {},
      { operations :=
        [.changeColumn "people" "c" (some { name := "c", type := .blob, unique := true }) none,
          .dropColumn "people" "b", .renameColumn "people" "c" "d", .renameTable "people" "persons",
          .dropTable "persons",
          .sql "SELECT ?;" [.null, .literal (.bool true), .literal (.integer 9223372036854775807),
            .literal (.text "null")]] }]

theorem reads_back_varied : parse? varied.write = some varied :=
  (reads_back (by decide)).1 ⟨by decide, by unfold FitWords; decide⟩

end Plan

end SchemaMigration
