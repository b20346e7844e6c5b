import SchemaMigration.Json.Value

/-!
# JSON tokens

A text is read character by character into tokens.  Letters, digits, signs and
points that follow one another form one word, which must be a numeral or one of
the three literal names.
-/

namespace SchemaMigration.Json

inductive Token
  | scalar (scalar : Scalar)
  | openArray
  | closeArray
  | openObject
  | closeObject
  | comma
  | colon
deriving DecidableEq

/-- A part of a string: a character as it stands, or the code unit of an
escape. -/
inductive Piece
  | char (c : Char)
  | unit (code : Nat)
deriving DecidableEq

namespace Piece

/-- The text of the pieces of a string.  Two escapes that form a surrogate pair
stand for one character; half a pair has no text. -/
def text? : List Piece → Option (List Char)
  | [] => some []
  | .char c :: rest => (text? rest).map (c :: ·)
  | .unit high :: .unit low :: rest =>
      if 0xD800 ≤ high ∧ high < 0xDC00 then
        if 0xDC00 ≤ low ∧ low < 0xE000 then
          let code := 0x10000 + (high - 0xD800) * 0x400 + (low - 0xDC00)
          (text? rest).map (Char.ofNat code :: ·)
        else none
      else if 0xDC00 ≤ high ∧ high < 0xE000 then none
      else (text? (.unit low :: rest)).map (Char.ofNat high :: ·)
  | .unit code :: rest =>
      if 0xD800 ≤ code ∧ code < 0xE000 then none
      else (text? rest).map (Char.ofNat code :: ·)

end Piece

/-- Where in a token the reading stands.  What has been read of it is kept in
reverse. -/
inductive Inside
  | nothing
  | word (read : List Char)
  | string (read : List Piece)
  | escape (read : List Piece)
  | unit (read : List Piece) (code : Nat) (missing : Nat)

/-- The tokens read so far, in reverse, and the token being read. -/
structure Scan where
  tokens : List Token
  inside : Inside

namespace Scan

def start : Scan := ⟨[], .nothing⟩

def isBlank (c : Char) : Bool :=
  c = ' ' || c = '\t' || c = '\n' || c = '\r'

def isWordChar (c : Char) : Bool :=
  c.isAlphanum || c = '-' || c = '+' || c = '.'

def punctuation? : Char → Option Token
  | '[' => some .openArray
  | ']' => some .closeArray
  | '\x7b' => some .openObject
  | '\x7d' => some .closeObject
  | ',' => some .comma
  | ':' => some .colon
  | _ => none

/-- The scalar that a word spells. -/
def wordScalar? (word : List Char) : Option Scalar :=
  if word = "null".toList then some .null
  else if word = "true".toList then some (.bool true)
  else if word = "false".toList then some (.bool false)
  else (Numeral.parse? word).map .number

/-- The character of an escape of two characters. -/
def escaped? : Char → Option Char
  | '"' => some '"'
  | '\\' => some '\\'
  | '/' => some '/'
  | 'b' => some '\x08'
  | 'f' => some '\x0c'
  | 'n' => some '\n'
  | 'r' => some '\r'
  | 't' => some '\t'
  | _ => none

def hexValue? (c : Char) : Option Nat :=
  if '0' ≤ c ∧ c ≤ '9' then some (c.toNat - '0'.toNat)
  else if 'a' ≤ c ∧ c ≤ 'f' then some (c.toNat - 'a'.toNat + 10)
  else if 'A' ≤ c ∧ c ≤ 'F' then some (c.toNat - 'A'.toNat + 10)
  else none

/-- One character between tokens. -/
def between? (tokens : List Token) (c : Char) : Option Scan :=
  if isBlank c then some ⟨tokens, .nothing⟩
  else if c = '"' then some ⟨tokens, .string []⟩
  else if isWordChar c then some ⟨tokens, .word [c]⟩
  else (punctuation? c).map fun token => ⟨token :: tokens, .nothing⟩

/-- The token of a finished string. -/
def stringToken (read : List Piece) : Token :=
  .scalar (.string ((Piece.text? read.reverse).map String.ofList))

/-- Reads one more character. -/
def next? (scan : Scan) (c : Char) : Option Scan :=
  match scan.inside with
  | .nothing => between? scan.tokens c
  | .word read =>
      if isWordChar c then some ⟨scan.tokens, .word (c :: read)⟩
      else (wordScalar? read.reverse).bind fun scalar =>
        between? (.scalar scalar :: scan.tokens) c
  | .string read =>
      if c = '"' then some ⟨stringToken read :: scan.tokens, .nothing⟩
      else if c = '\\' then some ⟨scan.tokens, .escape read⟩
      else if c < ' ' then none
      else some ⟨scan.tokens, .string (.char c :: read)⟩
  | .escape read =>
      if c = 'u' then some ⟨scan.tokens, .unit read 0 4⟩
      else (escaped? c).map fun character => ⟨scan.tokens, .string (.char character :: read)⟩
  | .unit read code missing =>
      (hexValue? c).map fun digit =>
        let code := 16 * code + digit
        if missing ≤ 1 then ⟨scan.tokens, .string (.unit code :: read)⟩
        else ⟨scan.tokens, .unit read code (missing - 1)⟩

/-- The tokens once the text has ended. -/
def finish? (scan : Scan) : Option (List Token) :=
  match scan.inside with
  | .nothing => some scan.tokens.reverse
  | .word read =>
      (wordScalar? read.reverse).map fun scalar => (.scalar scalar :: scan.tokens).reverse
  | _ => none

end Scan

namespace Token

/-- The tokens of a text. -/
def scan? (text : List Char) : Option (List Token) :=
  (text.foldlM Scan.next? Scan.start).bind Scan.finish?

end Token

end SchemaMigration.Json
