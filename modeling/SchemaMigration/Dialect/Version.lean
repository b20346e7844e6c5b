import SchemaMigration.Text.Blank

/-!
# Engine versions

A version is three numbers compared from the first to the last.  Reading one
never fails: a segment that is missing, is no number or does not fit thirty-two
bits counts as zero, and segments after the third are ignored.
-/

namespace SchemaMigration

/-- A `major.minor.patch` engine version. -/
structure Version where
  major : Nat
  minor : Nat
  patch : Nat
deriving DecidableEq

namespace Version

/-- The largest number a segment may hold. -/
def segmentLimit : Nat := 4294967295

/-- A segment without its surrounding blanks: decimal digits, after a plus
sign or not. -/
def segmentDigits (segment : List Char) : List Char :=
  match Text.trim segment with
  | '+' :: digits => digits
  | digits => digits

def segmentValue (segment : List Char) : Nat :=
  let digits := segmentDigits segment
  if digits.isEmpty || !digits.all Char.isDigit then 0
  else
    let value := Nat.ofDigitChars 10 digits 0
    if value ≤ segmentLimit then value else 0

def parse (text : String) : Version :=
  let segments := ((Text.trim text.toList).splitOn '.').map segmentValue
  { major := segments.getD 0 0
    minor := segments.getD 1 0
    patch := segments.getD 2 0 }

def display (v : Version) : String :=
  s!"{v.major}.{v.minor}.{v.patch}"

/-- Whether `v` is `least` or comes after it. -/
def atLeast (v least : Version) : Bool :=
  if v.major ≠ least.major then least.major < v.major
  else if v.minor ≠ least.minor then least.minor < v.minor
  else least.patch ≤ v.patch

end Version

end SchemaMigration
