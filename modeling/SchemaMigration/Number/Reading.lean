/-!
# Reading decimal text

A decimal text is rounded to the nearest double, a tie going to the even
neighbour.  Magnitudes too large for a double become infinite and magnitudes
too small become zero.
-/

namespace SchemaMigration.Number

/-- The value of decimal digits. -/
def digitsValue (digits : List Char) : Nat :=
  Nat.ofDigitChars 10 digits 0

/-- The magnitude `digits · 10 ^ exponent` rounded to a double.  Beyond 310
digits before the point nothing is finite, and with 330 zeros after it nothing
is left. -/
def roundDecimal (digits : Nat) (exponent : Int) : Float :=
  let leading := exponent + (Nat.toDigits 10 digits).length
  if digits = 0 then 0
  else if 310 < leading then 1 / 0
  else if leading < -330 then 0
  else Float.ofScientific digits (exponent < 0) exponent.natAbs

/-- An optional sign in front of a text: whether it is a minus, and the
rest. -/
def splitSign : List Char → Bool × List Char
  | '-' :: rest => (true, rest)
  | '+' :: rest => (false, rest)
  | rest => (false, rest)

/-- One or more digits after an optional sign. -/
def integer? (text : List Char) : Option Int :=
  let (negative, digits) := splitSign text
  if digits.isEmpty || !digits.all Char.isDigit then none
  else
    let value : Int := digitsValue digits
    some (if negative then -value else value)

/-- The exponent of a decimal text, given what follows its digits. -/
def exponent? : List Char → Option Int
  | [] => some 0
  | mark :: text => if mark = 'e' ∨ mark = 'E' then integer? text else none

/-- An unsigned decimal text: digits with at most one point among them, at
least one digit, and an exponent or none. -/
def magnitude? (text : List Char) : Option Float :=
  let whole := text.takeWhile Char.isDigit
  let afterWhole := text.dropWhile Char.isDigit
  let (fraction, afterFraction) := match afterWhole with
    | '.' :: rest => (rest.takeWhile Char.isDigit, rest.dropWhile Char.isDigit)
    | rest => ([], rest)
  if whole.isEmpty && fraction.isEmpty then none
  else (exponent? afterFraction).map fun exponent =>
    roundDecimal (digitsValue (whole ++ fraction)) (exponent - fraction.length)

/-- The double that a text denotes: a decimal, an infinity or NaN, after a
sign or not. -/
def float? (text : String) : Option Float :=
  let (negative, rest) := splitSign text.toList
  let lowered := String.ofList (rest.map Char.toLower)
  let found :=
    if lowered = "inf" ∨ lowered = "infinity" then some (1 / 0)
    else if lowered = "nan" then some (0 / 0)
    else magnitude? rest
  found.map fun x => if negative then -x else x

end SchemaMigration.Number
