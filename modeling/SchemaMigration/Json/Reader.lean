import SchemaMigration.Json.Token

/-!
# Reading JSON

Tokens are assembled into a value with the containers still open kept in a
list, innermost first, so that a text may nest as deeply as it likes.
-/

namespace SchemaMigration.Json

/-- An open container with what it holds so far, in reverse. -/
inductive Frame
  | array (items : List Value)
  | object (members : List (Text × Value))
  | member (members : List (Text × Value)) (name : Text)

/-- What may come next. -/
inductive Phase
  | value
  | firstItem
  | firstMember
  | memberName
  | colon
  | afterValue (value : Value)

/-- The open containers and what may come next. -/
structure Assembly where
  frames : List Frame
  phase : Phase

namespace Assembly

def start : Assembly := ⟨[], .value⟩

/-- A token that begins a value. -/
def beginValue? (frames : List Frame) : Token → Option Assembly
  | .scalar scalar => some ⟨frames, .afterValue (.scalar scalar)⟩
  | .openArray => some ⟨.array [] :: frames, .firstItem⟩
  | .openObject => some ⟨.object [] :: frames, .firstMember⟩
  | _ => none

/-- A token that names a member of the innermost object. -/
def nameMember? : List Frame → Token → Option Assembly
  | .object members :: frames, .scalar (.string name) =>
      some ⟨.member members name :: frames, .colon⟩
  | _, _ => none

/-- A token after a value, which belongs to the innermost container. -/
def afterValue? (value : Value) : List Frame → Token → Option Assembly
  | .array items :: frames, .comma => some ⟨.array (value :: items) :: frames, .value⟩
  | .array items :: frames, .closeArray =>
      some ⟨frames, .afterValue (.array (value :: items).reverse)⟩
  | .member members name :: frames, .comma =>
      some ⟨.object ((name, value) :: members) :: frames, .memberName⟩
  | .member members name :: frames, .closeObject =>
      some ⟨frames, .afterValue (.object ((name, value) :: members).reverse)⟩
  | _, _ => none

/-- Takes one more token. -/
def next? (assembly : Assembly) (token : Token) : Option Assembly :=
  match assembly.phase, assembly.frames, token with
  | .value, frames, token => beginValue? frames token
  | .firstItem, .array _ :: frames, .closeArray => some ⟨frames, .afterValue (.array [])⟩
  | .firstItem, frames, token => beginValue? frames token
  | .firstMember, .object _ :: frames, .closeObject =>
      some ⟨frames, .afterValue (.object [])⟩
  | .firstMember, frames, token => nameMember? frames token
  | .memberName, frames, token => nameMember? frames token
  | .colon, frames, .colon => some ⟨frames, .value⟩
  | .colon, _, _ => none
  | .afterValue value, frames, token => afterValue? value frames token

/-- The value once the tokens have ended: every container must be closed. -/
def finish? (assembly : Assembly) : Option Value :=
  match assembly.frames, assembly.phase with
  | [], .afterValue value => some value
  | _, _ => none

end Assembly

namespace Value

/-- The value of a list of tokens. -/
def ofTokens? (tokens : List Token) : Option Value :=
  (tokens.foldlM Assembly.next? Assembly.start).bind Assembly.finish?

/-- The value of a text that holds nothing else. -/
def parse? (text : String) : Option Value :=
  (Token.scan? text.toList).bind ofTokens?

end Value

end SchemaMigration.Json
