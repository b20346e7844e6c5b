import SchemaMigration.Schema.Registry

/-!
# Row types

For every tracked table a Rust struct is declared that a row can be read into,
with one field for each column.  Names are made identifiers of that language:
what is no ASCII letter or digit becomes an underscore, a leading digit gets an
underscore in front, and keywords are written as raw identifiers.
-/

namespace SchemaMigration.RowTypes

/-- The words that may not stand as a field name. -/
def keywords : List String :=
  ["as", "async", "await", "box", "break", "const", "continue", "crate", "dyn", "else",
   "enum", "extern", "false", "fn", "for", "if", "impl", "in", "let", "loop", "match",
   "mod", "move", "mut", "pub", "ref", "return", "static", "struct", "super", "trait",
   "true", "type", "unsafe", "use", "where", "while", "yield"]

def startsWithDigit (name : List Char) : Bool := name.head?.any Char.isDigit

/-- A name of ASCII letters, digits and underscores that begins with no digit
and is not empty. -/
def asciiName (name : String) : List Char :=
  let cleaned := name.toList.map fun c => if c.isAlphanum then c else '_'
  if cleaned.isEmpty || startsWithDigit cleaned then '_' :: cleaned else cleaned

def fieldName (name : String) : String :=
  let lowered := String.ofList ((asciiName name).map Char.toLower)
  if lowered ∈ keywords then "r#" ++ lowered else lowered

/-- A part of a name with its first letter in upper case. -/
def capitalize : List Char → List Char
  | [] => []
  | first :: rest => first.toUpper :: rest

/-- The parts of a name between underscores, run together with their first
letters in upper case. -/
def typeName (name : String) : String :=
  let joined := ((asciiName name).splitOn '_').flatMap capitalize
  String.ofList (if startsWithDigit joined then '_' :: joined else joined)

def baseType : ColumnType → String
  | .identity | .integer | .foreign => "i64"
  | .text => "String"
  | .real => "f64"
  | .blob => "Vec<u8>"

/-- Whether a field holds a value in every row. -/
def isPlain (column : Column) : Bool := column.isIdentity || column.notNull

def fieldType (column : Column) : String :=
  if isPlain column then baseType column.type
  else "Option<" ++ baseType column.type ++ ">"

def field (column : Column) : String :=
  "    pub " ++ fieldName column.name ++ ": " ++ fieldType column ++ ",\n"

/-- The declaration of a table's struct. -/
def declaration (table : Table) : String :=
  "/// Row of the `" ++ table.name ++ "` table.\n" ++
    "#[derive(Debug, Clone, PartialEq)]\n" ++
    "pub struct " ++ typeName table.name ++ "Row \x7b\n" ++
    String.join (table.columns.map field) ++ "\x7d\n"

/-- The document with the declarations of all tables. -/
def document (registry : Registry) : String :=
  "// Generated by oxide-migrate-compiler. Do not edit.\n" ++
    String.join (registry.tables.map fun table => "\n" ++ declaration table)

end SchemaMigration.RowTypes
