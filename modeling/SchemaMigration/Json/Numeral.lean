import SchemaMigration.Number.Layout
import SchemaMigration.Number.Reading

/-!
# JSON numerals

A numeral keeps its spelling: its sign, its digits before and after the point
and its exponent.  The spelling decides what a numeral may stand for: `1` is an
integer, `1.0`, `1e2` and `-0` are not.
-/

namespace SchemaMigration.Json

open SchemaMigration.Number

/-- A number as JSON spells it.  No fractional digit means no point. -/
structure Numeral where
  negative : Bool
  whole : List Char
  fraction : List Char
  exponent : Option Int
deriving DecidableEq

namespace Numeral

def ofInt (n : Int) : Numeral := ⟨n < 0, Nat.toDigits 10 n.natAbs, [], none⟩

/-- A finite double as JSON text writes it: the shortest digits, a tie going to
the even one, positional with at least one fractional digit when the leading
exponent is from -5 to 15, and scientific otherwise. -/
def ofFinite : Finite → Numeral
  | ⟨negative, none⟩ => ⟨negative, ['0'], ['0'], none⟩
  | ⟨negative, some magnitude⟩ =>
      let d := magnitude.shortest .even
      if -5 ≤ d.leading ∧ d.leading ≤ 15 then
        ⟨negative, d.whole, if d.fraction.isEmpty then ['0'] else d.fraction, none⟩
      else ⟨negative, d.significant.take 1, d.significant.drop 1, some d.leading⟩

def exponentChars (exponent : Int) : List Char :=
  'e' :: (if exponent < 0 then '-' else '+') :: Nat.toDigits 10 exponent.natAbs

def chars (n : Numeral) : List Char :=
  (if n.negative then ['-'] else []) ++ n.whole ++
    (if n.fraction.isEmpty then [] else '.' :: n.fraction) ++
    (match n.exponent with
      | none => []
      | some exponent => exponentChars exponent)

/-- Digits without a zero in front of another digit. -/
def isWhole : List Char → Bool
  | [] => false
  | ['0'] => true
  | digits => digits.all Char.isDigit && digits.head? != some '0'

/-- The exponent after the digits of a numeral, if there is one. -/
def exponentPart? : List Char → Option (Option Int)
  | [] => some none
  | mark :: text =>
      if mark = 'e' ∨ mark = 'E' then (integer? text).map some else none

/-- Reads a text that is one numeral from its first character to its last. -/
def parse? (text : List Char) : Option Numeral :=
  let (negative, unsigned) := match text with
    | '-' :: rest => (true, rest)
    | rest => (false, rest)
  let whole := unsigned.takeWhile Char.isDigit
  if !isWhole whole then none
  else
    match unsigned.dropWhile Char.isDigit with
    | '.' :: rest =>
        let fraction := rest.takeWhile Char.isDigit
        if fraction.isEmpty then none
        else (exponentPart? (rest.dropWhile Char.isDigit)).map
          fun exponent => ⟨negative, whole, fraction, exponent⟩
    | rest => (exponentPart? rest).map fun exponent => ⟨negative, whole, [], exponent⟩

/-- The integer that a numeral spells.  A point, an exponent or a minus in
front of zero make it a real number. -/
def integer? (n : Numeral) : Option Int :=
  let value : Int := digitsValue n.whole
  if !n.fraction.isEmpty || n.exponent.isSome then none
  else if !n.negative then some value
  else if value = 0 then none
  else some (-value)

/-- The largest significand that is kept exactly. -/
def significandLimit : Nat := 18446744073709551615

/-- Appends digits to a significand for as long as it stays within the limit,
and counts those appended. -/
def absorb (significand count : Nat) : List Char → Nat × Nat
  | [] => (significand, count)
  | digit :: rest =>
      let next := 10 * significand + (digit.toNat - '0'.toNat)
      if next ≤ significandLimit then absorb next (count + 1) rest
      else (significand, count)

/-- The significand and the power of ten that belong to the digits of a
numeral: digits before the point that no longer fit raise the power, digits
after it that no longer fit are dropped. -/
def scaled (n : Numeral) : Nat × Int :=
  let (whole, taken) := absorb 0 0 n.whole
  let (significand, places) := absorb whole 0 n.fraction
  (significand, ((n.whole.length - taken : Nat) : Int) - places)

def powerOfTen (exponent : Nat) : Float := Float.ofScientific 1 false exponent

/-- `x · 10 ^ exponent`, computed in doubles with one power of ten of at most
308 at a time; none when it overflows. -/
def scale? (x : Float) (exponent : Int) : Option Float :=
  if exponent = 0 then some x
  else if 308 < exponent then
    if x == 0 then some x else none
  else if 0 ≤ exponent then
    let scaled := x * powerOfTen exponent.toNat
    if scaled.isInf then none else some scaled
  else if -308 ≤ exponent then some (x / powerOfTen (-exponent).toNat)
  else if x == 0 then some x
  else scale? (x / powerOfTen 308) (exponent + 308)
termination_by (-exponent).toNat

/-- The largest exponent that is taken as written. -/
def exponentLimit : Nat := 2147483647

/-- The double that a numeral stands for, or none when it is too large for
one. -/
def real? (n : Numeral) : Option Float :=
  let (significand, shift) := n.scaled
  let exponent := n.exponent.getD 0
  let magnitude :=
    if exponent.natAbs ≤ exponentLimit then
      scale? (Float.ofNat significand) (shift + exponent)
    else if 0 < exponent ∧ significand ≠ 0 then none
    else some 0
  magnitude.map fun x => if n.negative then -x else x

end Numeral

end SchemaMigration.Json
