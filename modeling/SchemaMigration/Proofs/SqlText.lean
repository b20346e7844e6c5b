import SchemaMigration.Proofs.OutlineTokens
import SchemaMigration.Proofs.SqlWords
import SchemaMigration.Sql.Statement

/-!
# Reading schema statements back

Every statement is read back from its text as what it was made of.  Names and strings
may hold anything: what stands in them is no part of the statement.
-/

namespace SchemaMigration

open Sql

/-! ## Literals -/

namespace Literal

/-- The token of a literal. -/
def token : Literal → Token
  | text value => .string value
  | literal => .word literal.sql

theorem numeric_sql {literal : Literal} (htoken : literal.token = .word literal.sql) :
    Numeric literal.sql.toList := by
  cases literal with
  | bool value => cases value <;> exact ⟨by decide, by decide⟩
  | integer n => exact numeric_toString n
  | real x =>
    rw [sql]
    split
    · exact numeric_positional x
    · exact ⟨by decide, by decide⟩
  | text value => cases htoken

theorem token_cases (literal : Literal) :
    (∃ value, literal = .text value) ∨ literal.token = .word literal.sql := by
  cases literal with
  | text value => exact Or.inl ⟨value, rfl⟩
  | _ => exact Or.inr rfl

theorem text_token (literal : Literal) : literal.token.text = literal.sql := by
  cases literal <;> rfl

theorem isSpelled_token (literal : Literal) : literal.token.isSpelled := by
  rcases literal.token_cases with ⟨value, rfl⟩ | htoken
  · rfl
  · rw [htoken]
    exact (numeric_sql htoken).isWord

theorem phrase_sql (literal : Literal) : Phrase literal.sql [literal.token] := by
  rw [← text_token]
  exact phrase_text literal.isSpelled_token

theorem isValue_token (literal : Literal) : literal.token.isValue := by
  cases literal <;> rfl

theorem token_ne_word (literal : Literal) {text : String} (htext : 'R' ∈ text.toList) :
    literal.token ≠ .word text := by
  rcases literal.token_cases with ⟨value, rfl⟩ | htoken
  · nofun
  · rw [htoken]
    intro heq
    rw [← Token.word.inj heq] at htext
    exact (numeric_sql htoken).notMem htext

theorem isAttribute_token (literal : Literal) : literal.token.isAttribute := by
  have hne : literal.token ≠ .word "REFERENCES" := literal.token_ne_word (by decide)
  cases htoken : literal.token with
  | string value => rfl
  | word text =>
    rw [htoken] at hne
    exact decide_eq_true fun heq => hne (heq ▸ rfl)
  | _ =>
    have h := literal.isValue_token
    rw [htoken] at h
    cases h

end Literal

/-! ## Columns -/

/-- The definition as SQL writes it. -/
def Sql.Definition.text (definition : Definition) : String :=
  String.intercalate " " (definition.tokens.map Token.text)

namespace Column

/-- The tokens after the name of a column that is neither an identity nor foreign: its type,
its flags and its default. -/
def plainTokens (column : Column) : List Token :=
  [.word column.type.sql] ++
    (if column.autoIncrement then [.word "AUTOINCREMENT"] else []) ++
    (if column.notNull then [.word "NOT", .word "NULL"] else []) ++
    (column.default.map fun value => [.word "DEFAULT", value.token]).getD []

/-- The tokens after the column's name. -/
def attributeTokens (column : Column) : List Token :=
  match column.type with
  | .identity => [.word "INTEGER", .word "PRIMARY", .word "KEY", .word "AUTOINCREMENT"]
  | .foreign => [.word column.type.sql]
  | _ => column.plainTokens

/-- The column as its definition is read. -/
def outline (column : Column) : Definition := ⟨column.name, column.attributeTokens⟩

theorem joined_plain (column : Column) :
    Joined ([column.type.sql] ++ (if column.autoIncrement then ["AUTOINCREMENT"] else []) ++
      (if column.notNull then ["NOT NULL"] else []) ++
      (column.default.map fun value => "DEFAULT " ++ value.sql).toList) column.plainTokens := by
  have htype : Joined [column.type.sql] [.word column.type.sql] := fun _ => rfl
  refine ((htype.append ?_).append ?_).append ?_
  · cases column.autoIncrement <;> exact fun _ => rfl
  · cases column.notNull
    · exact fun _ => rfl
    · exact joined_single (List.cons_ne_nil _ _) (by decide)
  · cases column.default with
    | none => exact fun _ => rfl
    | some value =>
      refine joined_single (List.cons_ne_nil _ _) ?_
      change "DEFAULT " ++ value.sql = String.intercalate " " ["DEFAULT", value.token.text]
      rw [String.intercalate_cons_cons, String.intercalate_singleton, value.text_token]
      rfl

theorem joined_attributes (column : Column) :
    Joined column.attributes column.attributeTokens := by
  have hplain := column.joined_plain
  obtain ⟨name, type, primaryKey, autoIncrement, notNull, unique, default, references⟩ := column
  cases type with
  | identity =>
    have htext : "INTEGER PRIMARY KEY AUTOINCREMENT" =
        String.intercalate " " ["INTEGER", "PRIMARY", "KEY", "AUTOINCREMENT"] := by decide
    exact joined_single (List.cons_ne_nil _ _) htext
  | foreign => exact fun _ => rfl
  | _ => exact hplain

/-- A column is defined by what its definition is read as. -/
theorem text_outline (column : Column) : column.outline.text = column.definition :=
  (column.joined_attributes _).symm

theorem forall_plainTokens (column : Column) :
    ∀ token ∈ column.plainTokens, token.isAttribute ∧ token.isSpelled := by
  rw [plainTokens]
  simp only [List.forall_mem_append]
  refine ⟨⟨⟨?_, ?_⟩, ?_⟩, ?_⟩
  · cases column.type <;> decide
  · cases column.autoIncrement <;> decide
  · cases column.notNull <;> decide
  · cases column.default with
    | none => nofun
    | some value =>
      exact List.forall_mem_cons.mpr ⟨by decide,
        List.forall_mem_singleton.mpr ⟨value.isAttribute_token, value.isSpelled_token⟩⟩

theorem forall_attributeTokens (column : Column) :
    ∀ token ∈ column.attributeTokens, token.isAttribute ∧ token.isSpelled := by
  have hplain := column.forall_plainTokens
  obtain ⟨name, type, primaryKey, autoIncrement, notNull, unique, default, references⟩ := column
  cases type with
  | identity =>
    have hidentity : ∀ token ∈ [Token.word "INTEGER", .word "PRIMARY", .word "KEY",
        .word "AUTOINCREMENT"], token.isAttribute ∧ token.isSpelled := by decide
    exact hidentity
  | foreign =>
    have hforeign : ∀ token ∈ [Token.word ColumnType.foreign.sql],
        token.isAttribute ∧ token.isSpelled := by decide
    exact hforeign
  | _ => exact hplain

theorem wellFormed_outline (column : Column) : column.outline.WellFormed :=
  List.all_eq_true.mpr fun token htoken => (column.forall_attributeTokens token htoken).1

theorem phrase_definition (column : Column) : Phrase column.definition column.outline.tokens := by
  rw [← text_outline]
  exact phrase_tokens (List.forall_mem_cons.mpr
    ⟨rfl, fun token htoken => (column.forall_attributeTokens token htoken).2⟩)

/-- The reference of a foreign column. -/
def reference? (column : Column) : Option Reference :=
  column.target?.map fun table => ⟨table, "id"⟩

/-- The reference of a foreign column with the column's name. -/
def namedReference? (column : Column) : Option (String × Reference) :=
  column.reference?.map fun reference => (column.name, reference)

theorem phrase_referenceTo (table : String) :
    Phrase (referenceTo table) (Reference.tokens ⟨table, "id"⟩) := by
  have hlead : Lead "REFERENCES " [.word "REFERENCES"] := fun _ => rfl
  have hkey : Link "(\"id\")" [.openParen, .identifier "id", .closeParen] :=
    .of_break rfl rfl fun _ => rfl
  exact ((hlead.phrase (phrase_identifier table)).link hkey).toPhrase

theorem phrase_foreignKeys (columns : List Column) :
    List.Forall₂ Phrase (columns.filterMap foreignKey?)
      (((columns.filterMap namedReference?).map fun key => Part.foreignKey key.1 key.2).map
        Part.tokens) := by
  have hlead : Lead "FOREIGN KEY (" [.word "FOREIGN", .word "KEY", .openParen] := fun _ => rfl
  have hclose : Link ") " [.closeParen] := .of_break rfl rfl fun _ => rfl
  induction columns with
  | nil => exact .nil
  | cons column rest ih =>
    cases htarget : column.target? with
    | none =>
      have hkey : column.foreignKey? = none := by rw [foreignKey?, htarget, Option.map_none]
      have hreference : column.namedReference? = none := by
        rw [namedReference?, reference?, htarget]
        rfl
      rwa [List.filterMap_cons_none hkey, List.filterMap_cons_none hreference]
    | some table =>
      have hkey : column.foreignKey? = some
          ("FOREIGN KEY (" ++ Text.identifier column.name ++ ") " ++ referenceTo table) := by
        rw [foreignKey?, htarget, Option.map_some]
      have hreference : column.namedReference? = some (column.name, ⟨table, "id"⟩) := by
        rw [namedReference?, reference?, htarget]
        rfl
      rw [List.filterMap_cons_some hkey, List.filterMap_cons_some hreference]
      exact .cons (((hlead.phrase (phrase_identifier column.name)).link hclose).phrase
        (phrase_referenceTo table)) ih

theorem phrase_addedDefinition (column : Column) :
    Phrase column.addedDefinition
      (column.outline.tokens ++ (column.reference?.map Reference.tokens).getD []) := by
  cases htarget : column.target? with
  | none =>
    rw [addedDefinition, reference?, htarget, Option.map_none, Option.map_none, Option.getD_none,
      List.append_nil]
    exact column.phrase_definition
  | some table =>
    rw [addedDefinition, reference?, htarget, Option.map_some, Option.map_some, Option.getD_some]
    have hphrase := (column.phrase_definition.link Link.blank).phrase (phrase_referenceTo table)
    rwa [List.append_nil] at hphrase

end Column

namespace CopyExpression

/-- The expression as it is read. -/
def outline : CopyExpression → Expression
  | column name => .column name
  | literal value => .value value.token
  | coalesce name fallback => .coalesce name fallback.token

theorem phrase_sql (expression : CopyExpression) :
    Phrase expression.sql expression.outline.tokens := by
  cases expression with
  | column name => exact phrase_identifier name
  | literal value => exact value.phrase_sql
  | coalesce name fallback =>
    have hlead : Lead "COALESCE(" [.word "COALESCE", .openParen] := fun _ => rfl
    have hclose : Link ")" [.closeParen] := .of_break rfl rfl fun _ => rfl
    exact ((((hlead.phrase (phrase_identifier name)).link Link.comma).phrase
      fallback.phrase_sql).link hclose).toPhrase

theorem wellFormed_outline (expression : CopyExpression) : expression.outline.WellFormed := by
  cases expression with
  | column name => trivial
  | literal value => exact ⟨value.isValue_token, value.token_ne_word (by decide)⟩
  | coalesce name fallback => exact fallback.isValue_token

end CopyExpression

/-! ## Statements -/

namespace Statement

/-- The statement as it is read. -/
def outline : Statement → Outline
  | createTable name columns =>
      .createTable name (columns.map Column.outline) (keyColumns columns) (uniqueColumns columns)
        (columns.filterMap Column.namedReference?)
  | dropTable name => .dropTable name
  | renameTable old new => .renameTable old new
  | addColumn table column => .addColumn table column.outline column.reference?
  | dropColumn table column => .dropColumn table column
  | renameColumn table old new => .renameColumn table old new
  | copyRows target copies source =>
      .copyRows target (copies.map (·.1)) (copies.map (·.2.outline)) source

theorem phrase_nameList (names : List String) : Phrase (nameList names) (nameTokens names) := by
  refine Phrase.intercalate Link.comma ?_
  rw [List.forall₂_map_left_iff, List.forall₂_map_right_iff]
  exact List.forall₂_same.mpr fun name _ => phrase_identifier name

theorem phrase_clause {keyword : String} {words : List Token} (hkeyword : Phrase keyword words)
    (make : List String → Part)
    (hmake : ∀ names, (make names).tokens =
      words ++ [.openParen] ++ nameTokens names ++ [.closeParen]) (names : List String) :
    List.Forall₂ Phrase (clause keyword names) ((clauseParts make names).map Part.tokens) := by
  have hopen : Link "(" [.openParen] := .of_break rfl rfl fun _ => rfl
  have hclose : Link ")" [.closeParen] := .of_break rfl rfl fun _ => rfl
  cases names with
  | nil => exact .nil
  | cons first rest =>
    refine .cons ?_ .nil
    rw [hmake]
    exact (((hkeyword.link hopen).phrase (phrase_nameList (first :: rest))).link hclose).toPhrase

theorem phrase_parts (columns : List Column) :
    List.Forall₂ Phrase (parts columns)
      ((partsOf (columns.map Column.outline) (keyColumns columns) (uniqueColumns columns)
        (columns.filterMap Column.namedReference?)).map Part.tokens) := by
  have hprimaryKey : Phrase "PRIMARY KEY" [.word "PRIMARY", .word "KEY"] := by
    have hlead : Lead "PRIMARY " [.word "PRIMARY"] := fun _ => rfl
    have hkey : Phrase "KEY" [.word "KEY"] := phrase_word (by decide)
    exact hlead.phrase hkey
  have hunique : Phrase "UNIQUE" [.word "UNIQUE"] := phrase_word (by decide)
  have hcolumns : List.Forall₂ Phrase (columns.map Column.definition)
      (((columns.map Column.outline).map Part.column).map Part.tokens) := by
    rw [List.map_map, List.map_map, List.forall₂_map_left_iff, List.forall₂_map_right_iff]
    exact List.forall₂_same.mpr fun column _ => column.phrase_definition
  rw [parts, partsOf, List.map_append, List.map_append, List.map_append]
  exact List.rel_append (List.rel_append (List.rel_append hcolumns
    (phrase_clause hprimaryKey .primaryKey (fun _ => rfl) (keyColumns columns)))
    (phrase_clause hunique .unique (fun _ => rfl) (uniqueColumns columns)))
    (Column.phrase_foreignKeys columns)

theorem phrase_sql (statement : Statement) : Phrase statement.sql statement.outline.tokens := by
  have hend : Link ";" [.semicolon] := .of_break rfl rfl fun _ => rfl
  have halter : Lead "ALTER TABLE " [.word "ALTER", .word "TABLE"] := fun _ => rfl
  cases statement with
  | createTable name columns =>
    have hlead : Lead "CREATE TABLE " [.word "CREATE", .word "TABLE"] := fun _ => rfl
    have hopen : Link " (" [.openParen] := .of_break rfl rfl fun _ => rfl
    have hclose : Link ");" [.closeParen, .semicolon] := .of_break rfl rfl fun _ => rfl
    exact ((((hlead.phrase (phrase_identifier name)).link hopen).phrase
      (Phrase.intercalate Link.comma (phrase_parts columns))).link hclose).toPhrase
  | dropTable name =>
    have hlead : Lead "DROP TABLE " [.word "DROP", .word "TABLE"] := fun _ => rfl
    exact ((hlead.phrase (phrase_identifier name)).link hend).toPhrase
  | renameTable old new =>
    have hto : Link " RENAME TO " [.word "RENAME", .word "TO"] := .of_break rfl rfl fun _ => rfl
    exact ((((halter.phrase (phrase_identifier old)).link hto).phrase
      (phrase_identifier new)).link hend).toPhrase
  | addColumn table column =>
    have hadd : Link " ADD COLUMN " [.word "ADD", .word "COLUMN"] := .of_break rfl rfl fun _ => rfl
    exact ((((halter.phrase (phrase_identifier table)).link hadd).phrase
      column.phrase_addedDefinition).link hend).toPhrase
  | dropColumn table column =>
    have hdrop : Link " DROP COLUMN " [.word "DROP", .word "COLUMN"] :=
      .of_break rfl rfl fun _ => rfl
    exact ((((halter.phrase (phrase_identifier table)).link hdrop).phrase
      (phrase_identifier column)).link hend).toPhrase
  | renameColumn table old new =>
    have hrename : Link " RENAME COLUMN " [.word "RENAME", .word "COLUMN"] :=
      .of_break rfl rfl fun _ => rfl
    have hto : Link " TO " [.word "TO"] := .of_break rfl rfl fun _ => rfl
    exact ((((((halter.phrase (phrase_identifier table)).link hrename).phrase
      (phrase_identifier old)).link hto).phrase (phrase_identifier new)).link hend).toPhrase
  | copyRows target copies source =>
    have hlead : Lead "INSERT INTO " [.word "INSERT", .word "INTO"] := fun _ => rfl
    have hopen : Link " (" [.openParen] := .of_break rfl rfl fun _ => rfl
    have hselect : Link ") SELECT " [.closeParen, .word "SELECT"] := .of_break rfl rfl fun _ => rfl
    have hfrom : Link " FROM " [.word "FROM"] := .of_break rfl rfl fun _ => rfl
    have hexpressions : List.Forall₂ Phrase (copies.map (·.2.sql))
        ((copies.map (·.2.outline)).map Expression.tokens) := by
      rw [List.map_map, List.forall₂_map_left_iff, List.forall₂_map_right_iff]
      exact List.forall₂_same.mpr fun copy _ => copy.2.phrase_sql
    have hphrase := ((((((((hlead.phrase (phrase_identifier target)).link hopen).phrase
      (phrase_nameList (copies.map (·.1)))).link hselect).phrase
      (Phrase.intercalate Link.comma hexpressions)).link hfrom).phrase
      (phrase_identifier source)).link hend).toPhrase
    rw [List.append_assoc, List.append_assoc] at hphrase
    exact hphrase

theorem wellFormed_outline (statement : Statement) : statement.outline.WellFormed := by
  cases statement with
  | createTable name columns =>
    exact List.forall_mem_map.mpr fun column _ => column.wellFormed_outline
  | addColumn table column => exact column.wellFormed_outline
  | copyRows target copies source =>
    exact List.forall_mem_map.mpr fun copy _ => copy.2.wellFormed_outline
  | _ => trivial

theorem read?_sql (statement : Statement) : read? statement.sql = some statement.outline := by
  rw [read?, statement.phrase_sql.tokens?_eq, Option.bind_some,
    outline?_tokens statement.wellFormed_outline]

/-- A statement whose names and default hold quotes, commas, parentheses and statements.  Its
column is not foreign, so the table that it references is not written. -/
def quoted (references : Option String) : Statement :=
  .createTable "a\" (\"b\" TEXT); DROP TABLE \"c"
    [{ name := "x\", \"y", type := .text, primaryKey := true,
       default := some (.text "'); DROP TABLE \"c\"; --"), references }]

end Statement

end SchemaMigration
