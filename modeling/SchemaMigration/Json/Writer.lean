import SchemaMigration.Json.Token

/-!
# Writing JSON

A value has two written forms: a compact one, its tokens without a blank, and
an indented one with an item or a member on each line.
-/

namespace SchemaMigration.Json

/-- A control character as `\u00xx`. -/
def controlEscape (c : Char) : List Char :=
  ['\\', 'u', '0', '0', Nat.digitChar (c.toNat / 16), Nat.digitChar (c.toNat % 16)]

/-- A character of a string: quotes, backslashes and control characters are
escaped, and nothing else is. -/
def escapeChar (c : Char) : List Char :=
  if c = '"' then ['\\', '"']
  else if c = '\\' then ['\\', '\\']
  else if c = '\x08' then ['\\', 'b']
  else if c = '\x0c' then ['\\', 'f']
  else if c = '\n' then ['\\', 'n']
  else if c = '\r' then ['\\', 'r']
  else if c = '\t' then ['\\', 't']
  else if c < ' ' then controlEscape c
  else [c]

/-- A string; one without text is written as half of a surrogate pair. -/
def stringChars : Text → List Char
  | some text => '"' :: (text.toList.flatMap escapeChar ++ ['"'])
  | none => "\"\\ud800\"".toList

namespace Token

def chars : Token → List Char
  | .scalar .null => "null".toList
  | .scalar (.bool true) => "true".toList
  | .scalar (.bool false) => "false".toList
  | .scalar (.number numeral) => numeral.chars
  | .scalar (.string text) => stringChars text
  | .openArray => ['[']
  | .closeArray => [']']
  | .openObject => ['\x7b']
  | .closeObject => ['\x7d']
  | .comma => [',']
  | .colon => [':']

end Token

namespace Value

mutual

/-- The tokens of a value. -/
def tokens : Value → List Token
  | .scalar leaf => [.scalar leaf]
  | .array items => .openArray :: (itemTokens items ++ [.closeArray])
  | .object members => .openObject :: (memberTokens members ++ [.closeObject])

/-- Items with commas between them. -/
def itemTokens : List Value → List Token
  | [] => []
  | [item] => tokens item
  | item :: next :: rest => tokens item ++ .comma :: itemTokens (next :: rest)

/-- Members with commas between them. -/
def memberTokens : List (Text × Value) → List Token
  | [] => []
  | [(name, value)] => .scalar (.string name) :: .colon :: tokens value
  | (name, value) :: next :: rest =>
      .scalar (.string name) :: .colon :: (tokens value ++ .comma :: memberTokens (next :: rest))

end

/-- The compact form. -/
def write (value : Value) : String :=
  String.ofList (value.tokens.flatMap Token.chars)

/-- A new line at a depth of nesting, two blanks for each level. -/
def newLine (depth : Nat) : List Char :=
  '\n' :: List.replicate (2 * depth) ' '

mutual

/-- The indented form of a value that stands at a depth of nesting. -/
def indentedAt (depth : Nat) : Value → List Char
  | .scalar leaf => (Token.scalar leaf).chars
  | .array [] => "[]".toList
  | .array (item :: rest) =>
      '[' :: (indentedItems (depth + 1) (item :: rest) ++ newLine depth ++ [']'])
  | .object [] => ['\x7b', '\x7d']
  | .object (member :: rest) =>
      '\x7b' :: (indentedMembers (depth + 1) (member :: rest) ++ newLine depth ++ ['\x7d'])

def indentedItems (depth : Nat) : List Value → List Char
  | [] => []
  | [item] => newLine depth ++ indentedAt depth item
  | item :: next :: rest =>
      newLine depth ++ indentedAt depth item ++ ',' :: indentedItems depth (next :: rest)

def indentedMembers (depth : Nat) : List (Text × Value) → List Char
  | [] => []
  | [(name, value)] =>
      newLine depth ++ stringChars name ++ ':' :: ' ' :: indentedAt depth value
  | (name, value) :: next :: rest =>
      newLine depth ++ stringChars name ++ ':' :: ' ' :: indentedAt depth value ++
        ',' :: indentedMembers depth (next :: rest)

end

/-- The indented form. -/
def writeIndented (value : Value) : String :=
  String.ofList (indentedAt 0 value)

end Value

end SchemaMigration.Json
