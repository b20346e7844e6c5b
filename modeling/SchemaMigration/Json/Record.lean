import SchemaMigration.Json.Value

/-!
# Reading records from JSON

A record is written as an object, its fields in any order among others that are
ignored, or as an array, its fields in their declared order.  A field given
twice makes the object unreadable, and so does an array that is too long.
-/

namespace SchemaMigration.Json

/-- How a type is read from a value. -/
abbrev Decoder (α : Type) := Value → Option α

/-- The value found for each field of a record, in the declared order. -/
structure Record where
  positional : Bool
  found : List (Option Value)

namespace Record

/-- The members that have a given name. -/
def named (members : List (String × Value)) (field : String) : List Value :=
  (members.filter (·.1 = field)).map (·.2)

/-- The one member of a name, if there is one; unreadable when there are
more. -/
def lookup? (members : List (String × Value)) (field : String) : Option (Option Value) :=
  match named members field with
  | [] => some none
  | [value] => some (some value)
  | _ => none

/-- The members with the texts of their names. -/
def members? (members : List (Text × Value)) : Option (List (String × Value)) :=
  members.mapM fun member => member.1.map fun name => (name, member.2)

/-- The values found for the given fields. -/
def of? (fields : List String) : Value → Option Record
  | .array items =>
      if items.length ≤ fields.length then
        some ⟨true, (items.map some).rightpad fields.length none⟩
      else none
  | .object members => do
      let named ← members? members
      let found ← fields.mapM (lookup? named)
      pure ⟨false, found⟩
  | .scalar _ => none

end Record

namespace Decoder

variable {α : Type}

def text : Decoder String
  | .scalar (.string text) => text
  | _ => none

def flag : Decoder Bool
  | .scalar (.bool value) => some value
  | _ => none

/-- Whether an integer fits sixty-four bits with a sign. -/
def isWord (n : Int) : Bool :=
  -9223372036854775808 ≤ n && n ≤ 9223372036854775807

def word : Decoder Int
  | .scalar (.number numeral) => numeral.integer?.filter isWord
  | _ => none

def list (item : Decoder α) : Decoder (List α)
  | .array items => items.mapM item
  | _ => none

/-- Null, or a value. -/
def nullable (item : Decoder α) : Decoder (Option α)
  | .scalar .null => some none
  | value => (item value).map some

/-- A field that must be given. -/
def required (item : Decoder α) (found : Option Value) : Option α :=
  found.bind item

/-- A field that stands for `absent` when it is not given. -/
def orElse (absent : α) (item : Decoder α) (found : Option Value) : Option α :=
  match found with
  | none => some absent
  | some value => item value

/-- A field that may be null or not given. -/
def optional (item : Decoder α) (found : Option Value) : Option (Option α) :=
  orElse none (nullable item) found

/-- One of the names of an enumeration.  The name may also be the only member
of an object, over a null; where `emptyObject` holds, also over an empty
object. -/
def enumeration (emptyObject : Bool) (ofName? : String → Option α) : Decoder α
  | .scalar (.string text) => text.bind ofName?
  | .object [(name, .scalar .null)] => name.bind ofName?
  | .object [(name, .object [])] => if emptyObject then name.bind ofName? else none
  | _ => none

end Decoder

namespace Value

mutual

/-- Whether a value can be held apart from its text: its containers nest at
most `levels` deep, its strings have texts and its numbers fit a double. -/
def isHeldWithin (levels : Nat) : Value → Bool
  | .scalar (.string text) => text.isSome
  | .scalar (.number numeral) => numeral.real?.isSome
  | .scalar _ => true
  | .array items =>
      match levels with
      | 0 => false
      | inner + 1 => itemsHeldWithin inner items
  | .object members =>
      match levels with
      | 0 => false
      | inner + 1 => membersHeldWithin inner members

def itemsHeldWithin (levels : Nat) : List Value → Bool
  | [] => true
  | item :: rest => isHeldWithin levels item && itemsHeldWithin levels rest

def membersHeldWithin (levels : Nat) : List (Text × Value) → Bool
  | [] => true
  | (name, value) :: rest =>
      name.isSome && isHeldWithin levels value && membersHeldWithin levels rest

end

/-- Takes apart a record that a tag tells from others: the text of the tag and
the record without it.  In an object the tag is a member, in an array the first
item. -/
def untag? (tag : String) : Value → Option (String × Value)
  | .array (.scalar (.string name) :: rest) => name.map fun name => (name, .array rest)
  | .object members =>
      match members.filter (·.1 = some tag) with
      | [(_, .scalar (.string name))] =>
          name.map fun name => (name, .object (members.filter (·.1 ≠ some tag)))
      | _ => none
  | _ => none

end Value

end SchemaMigration.Json
