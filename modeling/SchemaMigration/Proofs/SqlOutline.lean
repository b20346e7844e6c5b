import SchemaMigration.Proofs.SqlTokens

/-!
# Outlines of schema statements

What a statement says: its kind, its names, its column definitions and its clauses.
An outline is read off the tokens of a statement.  Lists are split at commas that stand
outside parentheses, and nothing may follow the semicolon.
-/

namespace SchemaMigration.Sql

/-- A column as a statement defines it: its name and the tokens that follow it. -/
structure Definition where
  name : String
  attributes : List Token
deriving DecidableEq

/-- A column of another table. -/
structure Reference where
  table : String
  column : String
deriving DecidableEq

/-- A part of a table definition. -/
inductive Part
  | column (definition : Definition)
  | primaryKey (names : List String)
  | unique (names : List String)
  | foreignKey (column : String) (reference : Reference)
deriving DecidableEq

/-- What is read for a column that is copied. -/
inductive Expression
  | column (name : String)
  | value (token : Token)
  | coalesce (name : String) (fallback : Token)
deriving DecidableEq

inductive Outline
  | createTable (name : String) (columns : List Definition) (primaryKey unique : List String)
      (foreignKeys : List (String × Reference))
  | dropTable (name : String)
  | renameTable (old new : String)
  | addColumn (table : String) (definition : Definition) (reference : Option Reference)
  | dropColumn (table column : String)
  | renameColumn (table old new : String)
  | copyRows (target : String) (columns : List String) (expressions : List Expression)
      (source : String)
deriving DecidableEq

/-- A token that may stand in the definition of a column after its name.  A reference is no
part of the definition. -/
def Token.isAttribute : Token → Bool
  | .string _ => true
  | .word text => text ≠ "REFERENCES"
  | _ => false

/-- A token that may stand for a value. -/
def Token.isValue : Token → Bool
  | .string _ | .word _ => true
  | _ => false

/-- How many parentheses are open after a token; a statement cannot end in a list. -/
def depthAfter? (depth : Nat) : Token → Option Nat
  | .semicolon => none
  | .openParen => some (depth + 1)
  | .closeParen => if depth = 0 then none else some (depth - 1)
  | _ => some depth

/-- Splits at commas outside parentheses, up to a token that ends the list, and gives what
follows.  The part being read is kept in reverse. -/
def listUntil? (stop : Token) (depth : Nat) (part : List Token) :
    List Token → Option (List (List Token) × List Token)
  | [] => none
  | token :: rest =>
      if depth = 0 ∧ token = stop then some ([part.reverse], rest)
      else if depth = 0 ∧ token = .comma then
        (listUntil? stop 0 [] rest).map fun found => (part.reverse :: found.1, found.2)
      else (depthAfter? depth token).bind fun depth => listUntil? stop depth (token :: part) rest

/-- The items of a list and what follows it. -/
def itemsUntil? {α : Type} (item? : List Token → Option α) (stop : Token) (tokens : List Token) :
    Option (List α × List Token) := do
  match ← listUntil? stop 0 [] tokens with
  | ([[]], rest) => pure ([], rest)
  | (parts, rest) => pure (← parts.mapM item?, rest)

def name? : List Token → Option String
  | [.identifier name] => some name
  | _ => none

def reference? : List Token → Option Reference
  | [.word "REFERENCES", .identifier table, .openParen, .identifier column, .closeParen] =>
      some ⟨table, column⟩
  | _ => none

/-- Names between parentheses with nothing behind them. -/
def names? (tokens : List Token) : Option (List String) := do
  match ← itemsUntil? name? .closeParen tokens with
  | (names, []) => pure names
  | _ => none

def part? : List Token → Option Part
  | .identifier name :: attributes =>
      if attributes.all Token.isAttribute then some (.column ⟨name, attributes⟩) else none
  | .word "PRIMARY" :: .word "KEY" :: .openParen :: names => (names? names).map .primaryKey
  | .word "UNIQUE" :: .openParen :: names => (names? names).map .unique
  | .word "FOREIGN" :: .word "KEY" :: .openParen :: .identifier column :: .closeParen :: rest =>
      (reference? rest).map (.foreignKey column)
  | _ => none

def expression? : List Token → Option Expression
  | [.identifier name] => some (.column name)
  | [.word "COALESCE", .openParen, .identifier name, .comma, fallback, .closeParen] =>
      if fallback.isValue then some (.coalesce name fallback) else none
  | [token] => if token.isValue then some (.value token) else none
  | _ => none

/-- The names of a clause that may be given once. -/
def atMostOne? : List (List String) → Option (List String)
  | [] => some []
  | [names] => some names
  | _ => none

def Part.column? : Part → Option Definition
  | column definition => some definition
  | _ => none

def Part.primaryKey? : Part → Option (List String)
  | primaryKey names => some names
  | _ => none

def Part.unique? : Part → Option (List String)
  | unique names => some names
  | _ => none

def Part.foreignKey? : Part → Option (String × Reference)
  | foreignKey name reference => some (name, reference)
  | _ => none

/-- The definition of a table by its parts. -/
def Outline.ofParts? (name : String) (parts : List Part) : Option Outline := do
  let primaryKey ← atMostOne? (parts.filterMap Part.primaryKey?)
  let unique ← atMostOne? (parts.filterMap Part.unique?)
  pure (.createTable name (parts.filterMap Part.column?) primaryKey unique
    (parts.filterMap Part.foreignKey?))

/-- What follows the name of an altered table. -/
def alteration? (table : String) : List Token → Option Outline
  | [.word "RENAME", .word "TO", .identifier new, .semicolon] => some (.renameTable table new)
  | [.word "RENAME", .word "COLUMN", .identifier old, .word "TO", .identifier new, .semicolon] =>
      some (.renameColumn table old new)
  | [.word "DROP", .word "COLUMN", .identifier column, .semicolon] =>
      some (.dropColumn table column)
  | .word "ADD" :: .word "COLUMN" :: .identifier name :: rest =>
      let definition : Definition := ⟨name, rest.takeWhile Token.isAttribute⟩
      match rest.dropWhile Token.isAttribute with
      | [.semicolon] => some (.addColumn table definition none)
      | [.word "REFERENCES", .identifier target, .openParen, .identifier column, .closeParen,
         .semicolon] => some (.addColumn table definition (some ⟨target, column⟩))
      | _ => none
  | _ => none

/-- What follows the opened parenthesis of a table definition. -/
def creation? (name : String) (tokens : List Token) : Option Outline := do
  match ← itemsUntil? part? .closeParen tokens with
  | (parts, [.semicolon]) => Outline.ofParts? name parts
  | _ => none

/-- What follows the opened parenthesis of an insertion. -/
def insertion? (target : String) (tokens : List Token) : Option Outline := do
  match ← itemsUntil? name? .closeParen tokens with
  | (columns, .word "SELECT" :: rest) =>
      match ← itemsUntil? expression? (.word "FROM") rest with
      | (expressions, [.identifier source, .semicolon]) =>
          pure (.copyRows target columns expressions source)
      | _ => none
  | _ => none

/-- The outline of the one statement that tokens form. -/
def outline? : List Token → Option Outline
  | .word "CREATE" :: .word "TABLE" :: .identifier name :: .openParen :: rest =>
      creation? name rest
  | [.word "DROP", .word "TABLE", .identifier name, .semicolon] => some (.dropTable name)
  | .word "ALTER" :: .word "TABLE" :: .identifier table :: rest => alteration? table rest
  | .word "INSERT" :: .word "INTO" :: .identifier target :: .openParen :: rest =>
      insertion? target rest
  | _ => none

/-- The outline of a text. -/
def read? (text : String) : Option Outline := (tokens? text).bind outline?

end SchemaMigration.Sql
