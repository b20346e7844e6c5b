import SchemaMigration.Proofs.SqlOutline

/-!
# The tokens of an outline

An outline is written as tokens and read back from them.  No token of a list ends a part
of it, since names and strings are one token each and what stands in parentheses is
passed over.
-/

namespace SchemaMigration.Sql

/-! ## Tokens -/

def Definition.tokens (definition : Definition) : List Token :=
  .identifier definition.name :: definition.attributes

def Reference.tokens (reference : Reference) : List Token :=
  [.word "REFERENCES", .identifier reference.table, .openParen, .identifier reference.column,
    .closeParen]

/-- Names between commas. -/
def nameTokens (names : List String) : List Token :=
  List.intercalate [.comma] (names.map fun name => [.identifier name])

def Part.tokens : Part → List Token
  | column definition => definition.tokens
  | primaryKey names =>
      [.word "PRIMARY", .word "KEY", .openParen] ++ nameTokens names ++ [.closeParen]
  | unique names => [.word "UNIQUE", .openParen] ++ nameTokens names ++ [.closeParen]
  | foreignKey name reference =>
      [.word "FOREIGN", .word "KEY", .openParen, .identifier name, .closeParen] ++
        reference.tokens

def Expression.tokens : Expression → List Token
  | column name => [.identifier name]
  | value token => [token]
  | coalesce name fallback =>
      [.word "COALESCE", .openParen, .identifier name, .comma, fallback, .closeParen]

/-- A clause over names, left out when there are none. -/
def clauseParts (part : List String → Part) (names : List String) : List Part :=
  if names.isEmpty then [] else [part names]

/-- The parts of a table definition: the columns, then the clauses. -/
def partsOf (columns : List Definition) (primaryKey unique : List String)
    (foreignKeys : List (String × Reference)) : List Part :=
  columns.map .column ++ clauseParts .primaryKey primaryKey ++ clauseParts .unique unique ++
    foreignKeys.map fun key => .foreignKey key.1 key.2

def Outline.tokens : Outline → List Token
  | createTable name columns primaryKey unique foreignKeys =>
      [.word "CREATE", .word "TABLE", .identifier name, .openParen] ++
        List.intercalate [.comma]
          ((partsOf columns primaryKey unique foreignKeys).map Part.tokens) ++
        [.closeParen, .semicolon]
  | dropTable name => [.word "DROP", .word "TABLE", .identifier name, .semicolon]
  | renameTable old new =>
      [.word "ALTER", .word "TABLE", .identifier old, .word "RENAME", .word "TO",
        .identifier new, .semicolon]
  | addColumn table definition reference =>
      [.word "ALTER", .word "TABLE", .identifier table, .word "ADD", .word "COLUMN"] ++
        definition.tokens ++ (reference.map Reference.tokens).getD [] ++ [.semicolon]
  | dropColumn table column =>
      [.word "ALTER", .word "TABLE", .identifier table, .word "DROP", .word "COLUMN",
        .identifier column, .semicolon]
  | renameColumn table old new =>
      [.word "ALTER", .word "TABLE", .identifier table, .word "RENAME", .word "COLUMN",
        .identifier old, .word "TO", .identifier new, .semicolon]
  | copyRows target columns expressions source =>
      [.word "INSERT", .word "INTO", .identifier target, .openParen] ++ nameTokens columns ++
        [.closeParen, .word "SELECT"] ++
        List.intercalate [.comma] (expressions.map Expression.tokens) ++
        [.word "FROM", .identifier source, .semicolon]

/-! ## Lists -/

/-- Tokens that are read into the part of a list. -/
def Balanced (stop : Token) (tokens : List Token) : Prop :=
  ∀ part rest, listUntil? stop 0 part (tokens ++ rest) =
    listUntil? stop 0 (tokens.reverse ++ part) rest

/-- A token that ends no list and no part. -/
def Token.isPlain : Token → Bool
  | .identifier _ | .string _ | .word _ => true
  | _ => false

variable {stop : Token}

theorem depthAfter?_plain {token : Token} (hplain : token.isPlain ∨ token = .comma) (depth : Nat) :
    depthAfter? depth token = some depth := by
  cases token with
  | semicolon | openParen | closeParen => simp [Token.isPlain] at hplain
  | _ => rfl

theorem listUntil?_plain {token : Token} (hplain : token.isPlain) (hstop : token ≠ stop)
    (part rest : List Token) :
    listUntil? stop 0 part (token :: rest) = listUntil? stop 0 (token :: part) rest := by
  have hcomma : token ≠ .comma := by rintro rfl; cases hplain
  rw [listUntil?, if_neg fun h => hstop h.2, if_neg fun h => hcomma h.2,
    depthAfter?_plain (Or.inl hplain), Option.bind_some]

theorem balanced_plain {tokens : List Token}
    (hplain : ∀ token ∈ tokens, token.isPlain ∧ token ≠ stop) : Balanced stop tokens := by
  intro part rest
  induction tokens generalizing part with
  | nil => rfl
  | cons token tokens ih =>
    obtain ⟨htoken, hstop⟩ := hplain token List.mem_cons_self
    rw [List.cons_append, listUntil?_plain htoken hstop,
      ih fun other hother => hplain other (List.mem_cons_of_mem token hother),
      List.reverse_cons, List.append_assoc, List.singleton_append]

theorem Balanced.append {first second : List Token} (hfirst : Balanced stop first)
    (hsecond : Balanced stop second) : Balanced stop (first ++ second) := by
  intro part rest
  rw [List.append_assoc, hfirst, hsecond, List.reverse_append, List.append_assoc]

/-- Commas between parentheses split nothing. -/
theorem balanced_parens {inner : List Token}
    (hinner : ∀ token ∈ inner, token.isPlain ∨ token = .comma) (hstop : stop ≠ .openParen) :
    Balanced stop (.openParen :: (inner ++ [.closeParen])) := by
  -- One parenthesis is open inside, so neither a comma nor the stop is looked for there.
  have hinside (part rest : List Token) :
      listUntil? stop 1 part (inner ++ .closeParen :: rest) =
        listUntil? stop 0 (.closeParen :: (inner.reverse ++ part)) rest := by
    induction inner generalizing part with
    | nil => simp [listUntil?, depthAfter?]
    | cons token inner ih =>
      have hrest := ih fun other hother => hinner other (List.mem_cons_of_mem token hother)
      have hdepth := depthAfter?_plain (hinner token List.mem_cons_self) 1
      rw [List.cons_append, listUntil?, if_neg (by simp), if_neg (by simp), hdepth,
        Option.bind_some, hrest]
      simp
  intro part rest
  have hopen : listUntil? stop 0 part (.openParen :: (inner ++ .closeParen :: rest)) =
      listUntil? stop 1 (.openParen :: part) (inner ++ .closeParen :: rest) := by
    rw [listUntil?, if_neg fun h => hstop h.2.symm, if_neg (by simp)]
    rfl
  rw [List.cons_append, List.append_assoc, List.singleton_append, hopen, hinside]
  simp

/-- A list is split into its parts. -/
theorem listUntil?_intercalate (hcomma : stop ≠ .comma) {first : List Token}
    {others : List (List Token)} (hparts : ∀ part ∈ first :: others, Balanced stop part)
    (rest : List Token) :
    listUntil? stop 0 [] (List.intercalate [.comma] (first :: others) ++ stop :: rest) =
      some (first :: others, rest) := by
  have hfirst := hparts first List.mem_cons_self
  induction others generalizing first with
  | nil =>
    rw [List.intercalate_singleton, hfirst, listUntil?, if_pos ⟨rfl, rfl⟩, List.append_nil,
      List.reverse_reverse]
  | cons second others ih =>
    have hothers := fun part hpart => hparts part (List.mem_cons_of_mem first hpart)
    have hnext := ih hothers (hothers second List.mem_cons_self)
    rw [List.intercalate_cons_cons, List.append_assoc, List.append_assoc, hfirst,
      List.singleton_append, listUntil?, if_neg fun h => hcomma h.2.symm, if_pos ⟨rfl, rfl⟩, hnext,
      Option.map_some, List.append_nil, List.reverse_reverse]

/-- An item that is read from its tokens in a list. -/
structure Listed {α : Type} (item? : List Token → Option α) (stop : Token) (tokens : List Token)
    (item : α) : Prop where
  ne_nil : tokens ≠ []
  balanced : Balanced stop tokens
  read : item? tokens = some item

/-- The items of a list are read from their tokens. -/
theorem itemsUntil?_intercalate {α : Type} {item? : List Token → Option α}
    {tokens : α → List Token} (hcomma : stop ≠ .comma) {items : List α}
    (hitems : ∀ item ∈ items, Listed item? stop (tokens item) item) (rest : List Token) :
    itemsUntil? item? stop (List.intercalate [.comma] (items.map tokens) ++ stop :: rest) =
      some (items, rest) := by
  have hread : (items.map tokens).mapM item? = some items := by
    induction items with
    | nil => rfl
    | cons item items ih =>
      rw [List.map_cons, List.mapM_cons, (hitems item List.mem_cons_self).read,
        ih fun other hother => hitems other (List.mem_cons_of_mem item hother)]
      rfl
  cases items with
  | nil =>
    have hsplit : listUntil? stop 0 [] (stop :: rest) = some ([[]], rest) := by
      rw [listUntil?, if_pos ⟨rfl, rfl⟩]
      rfl
    rw [itemsUntil?, List.map_nil, List.intercalate_nil, List.nil_append, hsplit]
    rfl
  | cons first others =>
    have hparts : ∀ part ∈ tokens first :: others.map tokens, Balanced stop part := by
      rw [← List.map_cons, List.forall_mem_map]
      exact fun item hitem => (hitems item hitem).balanced
    have hne := (hitems first List.mem_cons_self).ne_nil
    rw [itemsUntil?, List.map_cons, listUntil?_intercalate hcomma hparts]
    rw [List.map_cons] at hread
    simp [hread, hne]

/-! ## Reading back -/

theorem isPlain_of_isAttribute {token : Token} (htoken : token.isAttribute) : token.isPlain := by
  cases token <;> first | rfl | cases htoken

theorem isPlain_of_isValue {token : Token} (htoken : token.isValue) : token.isPlain := by
  cases token <;> first | rfl | cases htoken

theorem listed_name (name : String) : Listed name? .closeParen [.identifier name] name where
  ne_nil := List.cons_ne_nil _ _
  balanced := balanced_plain (List.forall_mem_singleton.mpr ⟨rfl, nofun⟩)
  read := rfl

theorem itemsUntil?_nameTokens (names : List String) (rest : List Token) :
    itemsUntil? name? .closeParen (nameTokens names ++ .closeParen :: rest) =
      some (names, rest) := by
  have hcomma : Token.closeParen ≠ .comma := nofun
  exact itemsUntil?_intercalate hcomma (fun name _ => listed_name name) rest

theorem names?_nameTokens (names : List String) :
    names? (nameTokens names ++ [.closeParen]) = some names := by
  rw [names?, itemsUntil?_nameTokens]
  rfl

theorem forall_nameTokens (names : List String) :
    ∀ token ∈ nameTokens names, token.isPlain ∨ token = .comma := by
  induction names with
  | nil => nofun
  | cons first rest ih =>
    cases rest with
    | nil => exact List.forall_mem_singleton.mpr (Or.inl rfl)
    | cons second rest =>
      rw [nameTokens, List.map_cons, List.map_cons, List.intercalate_cons_cons, List.append_assoc]
      exact List.forall_mem_cons.mpr ⟨Or.inl rfl, List.forall_mem_cons.mpr ⟨Or.inr rfl, ih⟩⟩

/-- A definition that is read back from its tokens. -/
def Definition.WellFormed (definition : Definition) : Prop :=
  definition.attributes.all Token.isAttribute

def Part.WellFormed : Part → Prop
  | column definition => definition.WellFormed
  | _ => True

theorem Part.WellFormed.listed {part : Part} (hpart : part.WellFormed) :
    Listed part? .closeParen part.tokens part := by
  have hword (text : String) : Balanced .closeParen [.word text] :=
    balanced_plain (List.forall_mem_singleton.mpr ⟨rfl, nofun⟩)
  have hname (name : String) : Balanced .closeParen [.openParen, .identifier name, .closeParen] :=
    balanced_parens (List.forall_mem_singleton.mpr (Or.inl rfl)) nofun
  have hnames (names : List String) :
      Balanced .closeParen (.openParen :: (nameTokens names ++ [.closeParen])) :=
    balanced_parens (forall_nameTokens names) nofun
  cases part with
  | column definition =>
    refine ⟨List.cons_ne_nil _ _, balanced_plain ?_, if_pos hpart⟩
    refine List.forall_mem_cons.mpr ⟨⟨rfl, nofun⟩, fun token htoken => ?_⟩
    have hplain := isPlain_of_isAttribute (List.all_eq_true.mp hpart token htoken)
    exact ⟨hplain, by rintro rfl; cases hplain⟩
  | primaryKey names =>
    refine ⟨List.cons_ne_nil _ _,
      (hword "PRIMARY").append ((hword "KEY").append (hnames names)), ?_⟩
    change (names? (nameTokens names ++ [.closeParen])).map Part.primaryKey = _
    rw [names?_nameTokens, Option.map_some]
  | unique names =>
    refine ⟨List.cons_ne_nil _ _, (hword "UNIQUE").append (hnames names), ?_⟩
    change (names? (nameTokens names ++ [.closeParen])).map Part.unique = _
    rw [names?_nameTokens, Option.map_some]
  | foreignKey name reference =>
    have htable : Balanced .closeParen [.identifier reference.table] :=
      balanced_plain (List.forall_mem_singleton.mpr ⟨rfl, nofun⟩)
    exact ⟨List.cons_ne_nil _ _, (hword "FOREIGN").append ((hword "KEY").append ((hname name).append
      ((hword "REFERENCES").append (htable.append (hname reference.column))))), rfl⟩

/-- An expression that is read back from its tokens in front of a source. -/
def Expression.WellFormed : Expression → Prop
  | value token => token.isValue ∧ token ≠ .word "FROM"
  | coalesce _ fallback => fallback.isValue
  | _ => True

theorem Expression.WellFormed.listed {expression : Expression}
    (hexpression : expression.WellFormed) :
    Listed expression? (.word "FROM") expression.tokens expression := by
  cases expression with
  | column name =>
    exact ⟨List.cons_ne_nil _ _,
      balanced_plain (List.forall_mem_singleton.mpr ⟨rfl, nofun⟩), rfl⟩
  | value token =>
    obtain ⟨hvalue, hne⟩ := hexpression
    refine ⟨List.cons_ne_nil _ _, balanced_plain (List.forall_mem_singleton.mpr
      ⟨isPlain_of_isValue hvalue, hne⟩), ?_⟩
    cases token with
    | string text => rfl
    | word text => simp [expression?, tokens, Token.isValue]
    | _ => cases hvalue
  | coalesce name fallback =>
    have hinner : ∀ token ∈ [.identifier name, .comma, fallback],
        token.isPlain ∨ token = .comma :=
      List.forall_mem_cons.mpr ⟨Or.inl rfl, List.forall_mem_cons.mpr ⟨Or.inr rfl,
        List.forall_mem_singleton.mpr (Or.inl (isPlain_of_isValue hexpression))⟩⟩
    have hword : Balanced (.word "FROM") [.word "COALESCE"] :=
      balanced_plain (List.forall_mem_singleton.mpr ⟨rfl, by decide⟩)
    exact ⟨List.cons_ne_nil _ _, hword.append (balanced_parens hinner nofun),
      if_pos hexpression⟩

theorem atMostOne?_clauseParts (part : List String → Part) (names : List String)
    {names? : Part → Option (List String)} (hpart : names? (part names) = some names) :
    atMostOne? ((clauseParts part names).filterMap names?) = some names := by
  cases names with
  | nil => rfl
  | cons first rest =>
    rw [clauseParts, if_neg (by simp), List.filterMap_cons_some hpart]
    rfl

theorem filterMap_clauseParts {α : Type} {part : List String → Part} {item? : Part → Option α}
    (hpart : ∀ names, item? (part names) = none) (names : List String) :
    (clauseParts part names).filterMap item? = [] := by
  rw [clauseParts]
  split
  · rfl
  · rw [List.filterMap_cons_none (hpart names), List.filterMap_nil]

theorem filterMap_map_none {α β : Type} {make : α → Part} {item? : Part → Option β}
    (hmake : ∀ x, item? (make x) = none) (xs : List α) : (xs.map make).filterMap item? = [] := by
  rw [List.filterMap_map]
  exact List.filterMap_eq_nil_iff.mpr fun x _ => hmake x

theorem filterMap_map_some {α : Type} (make : α → Part) (item? : Part → Option α)
    (hmake : ∀ x, item? (make x) = some x) (xs : List α) : (xs.map make).filterMap item? = xs := by
  rw [List.filterMap_map, show item? ∘ make = some from funext hmake, List.filterMap_some]

/-- The columns and the clauses of a table are told apart. -/
theorem ofParts?_partsOf (name : String) (columns : List Definition)
    (primaryKey unique : List String) (foreignKeys : List (String × Reference)) :
    Outline.ofParts? name (partsOf columns primaryKey unique foreignKeys) =
      some (.createTable name columns primaryKey unique foreignKeys) := by
  have hmade : (columns.map Part.column).filterMap Part.column? = columns :=
    filterMap_map_some Part.column Part.column? (fun _ => rfl) columns
  have hmadeKeys : (foreignKeys.map fun key => Part.foreignKey key.1 key.2).filterMap
      Part.foreignKey? = foreignKeys :=
    filterMap_map_some _ Part.foreignKey? (fun _ => rfl) foreignKeys
  have hcolumns : (partsOf columns primaryKey unique foreignKeys).filterMap Part.column? =
      columns := by
    simp only [partsOf, List.filterMap_append]
    rw [hmade, filterMap_clauseParts (fun _ => rfl), filterMap_clauseParts (fun _ => rfl),
      filterMap_map_none (fun _ => rfl)]
    simp only [List.append_nil]
  have hprimaryKey : (partsOf columns primaryKey unique foreignKeys).filterMap Part.primaryKey? =
      (clauseParts .primaryKey primaryKey).filterMap Part.primaryKey? := by
    simp only [partsOf, List.filterMap_append]
    rw [filterMap_map_none (fun _ => rfl), filterMap_clauseParts (fun _ => rfl) unique,
      filterMap_map_none (fun _ => rfl)]
    simp only [List.nil_append, List.append_nil]
  have hunique : (partsOf columns primaryKey unique foreignKeys).filterMap Part.unique? =
      (clauseParts .unique unique).filterMap Part.unique? := by
    simp only [partsOf, List.filterMap_append]
    rw [filterMap_map_none (fun _ => rfl), filterMap_clauseParts (fun _ => rfl) primaryKey,
      filterMap_map_none (fun _ => rfl)]
    simp only [List.nil_append, List.append_nil]
  have hforeignKeys : (partsOf columns primaryKey unique foreignKeys).filterMap Part.foreignKey? =
      foreignKeys := by
    simp only [partsOf, List.filterMap_append]
    rw [filterMap_map_none (fun _ => rfl), filterMap_clauseParts (fun _ => rfl),
      filterMap_clauseParts (fun _ => rfl), hmadeKeys]
    simp only [List.nil_append]
  rw [Outline.ofParts?, hcolumns, hprimaryKey, hunique, hforeignKeys,
    atMostOne?_clauseParts _ _ rfl, atMostOne?_clauseParts _ _ rfl]
  rfl

/-- An outline that is read back from its tokens. -/
def Outline.WellFormed : Outline → Prop
  | createTable _ columns _ _ _ => ∀ definition ∈ columns, definition.WellFormed
  | addColumn _ definition _ => definition.WellFormed
  | copyRows _ _ expressions _ => ∀ expression ∈ expressions, expression.WellFormed
  | _ => True

theorem forall_clauseParts (make : List String → Part)
    (hmake : ∀ names, (make names).WellFormed) (names : List String) :
    ∀ part ∈ clauseParts make names, part.WellFormed := by
  rw [clauseParts]
  split
  · nofun
  · exact List.forall_mem_singleton.mpr (hmake names)

theorem forall_partsOf {columns : List Definition}
    (hcolumns : ∀ definition ∈ columns, definition.WellFormed) (primaryKey unique : List String)
    (foreignKeys : List (String × Reference)) :
    ∀ part ∈ partsOf columns primaryKey unique foreignKeys, part.WellFormed := by
  simp only [partsOf, List.forall_mem_append, List.forall_mem_map]
  exact ⟨⟨⟨hcolumns, forall_clauseParts .primaryKey (fun _ => trivial) primaryKey⟩,
    forall_clauseParts .unique (fun _ => trivial) unique⟩, fun _ _ => trivial⟩

theorem creation?_tokens (name : String) {columns : List Definition}
    (hcolumns : ∀ definition ∈ columns, definition.WellFormed) (primaryKey unique : List String)
    (foreignKeys : List (String × Reference)) :
    creation? name (List.intercalate [.comma]
        ((partsOf columns primaryKey unique foreignKeys).map Part.tokens) ++
          [.closeParen, .semicolon]) =
      some (.createTable name columns primaryKey unique foreignKeys) := by
  have hcomma : Token.closeParen ≠ .comma := nofun
  have hparts := forall_partsOf hcolumns primaryKey unique foreignKeys
  rw [creation?, itemsUntil?_intercalate hcomma fun part hpart => (hparts part hpart).listed]
  exact ofParts?_partsOf name columns primaryKey unique foreignKeys

theorem insertion?_tokens (target : String) (columns : List String) {expressions : List Expression}
    (hexpressions : ∀ expression ∈ expressions, expression.WellFormed) (source : String) :
    insertion? target (nameTokens columns ++ .closeParen :: .word "SELECT" ::
        (List.intercalate [.comma] (expressions.map Expression.tokens) ++
          [.word "FROM", .identifier source, .semicolon])) =
      some (.copyRows target columns expressions source) := by
  have hcomma : Token.word "FROM" ≠ .comma := nofun
  have hitems := itemsUntil?_intercalate hcomma
    (fun expression hmem => (hexpressions expression hmem).listed)
    [.identifier source, .semicolon]
  rw [insertion?, itemsUntil?_nameTokens]
  simp only [Option.bind_eq_bind, Option.bind_some, hitems]
  rfl

/-- What follows the name of a table to which a column is added. -/
theorem alteration?_addColumn (table : String) {definition : Definition}
    (hdefinition : definition.WellFormed) (reference : Option Reference) :
    alteration? table (.word "ADD" :: .word "COLUMN" :: (definition.tokens ++
      (reference.map Reference.tokens).getD [] ++ [.semicolon])) =
        some (.addColumn table definition reference) := by
  -- The definition ends where its attributes do: at a reference or the semicolon.
  have hattributes := List.all_eq_true.mp hdefinition
  have htake (rest : List Token) (hrest : rest.takeWhile Token.isAttribute = []) :
      (definition.attributes ++ rest).takeWhile Token.isAttribute = definition.attributes := by
    rw [List.takeWhile_append_of_pos hattributes, hrest, List.append_nil]
  have hdrop (rest : List Token) (hrest : rest.dropWhile Token.isAttribute = rest) :
      (definition.attributes ++ rest).dropWhile Token.isAttribute = rest := by
    rw [List.dropWhile_append_of_pos hattributes, hrest]
  rw [Definition.tokens, List.append_assoc, List.cons_append, alteration?]
  cases reference with
  | none =>
    rw [Option.map_none, Option.getD_none, List.nil_append, htake _ rfl, hdrop _ rfl]
  | some reference =>
    rw [Option.map_some, Option.getD_some, htake _ rfl, hdrop _ rfl]
    rfl

/-- An outline is read back from its tokens. -/
theorem outline?_tokens {outline : Outline} (houtline : outline.WellFormed) :
    outline? outline.tokens = some outline := by
  cases outline with
  | dropTable name => rfl
  | renameTable old new => rfl
  | dropColumn table name => rfl
  | renameColumn table old new => rfl
  | createTable name columns primaryKey unique foreignKeys =>
    rw [← creation?_tokens name houtline primaryKey unique foreignKeys, Outline.tokens,
      List.append_assoc]
    rfl
  | addColumn table definition reference =>
    rw [← alteration?_addColumn table houtline reference]
    rfl
  | copyRows target columns expressions source =>
    rw [← insertion?_tokens target columns houtline source, Outline.tokens, List.append_assoc,
      List.append_assoc, List.append_assoc]
    rfl

/-! ## The end of a statement -/

end SchemaMigration.Sql
