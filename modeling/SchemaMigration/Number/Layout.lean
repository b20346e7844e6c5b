import SchemaMigration.Number.Shortest

/-!
# Writing decimals

A decimal is written positionally, with its whole and its fractional digits, or
scientifically, with one digit before the point and a power of ten.
-/

namespace SchemaMigration.Number

namespace Decimal

/-- The digits up to the last that is not zero. -/
def significant (d : Decimal) : List Char :=
  ((Nat.toDigits 10 d.digits).reverse.dropWhile (· = '0')).reverse

/-- The exponent of the first digit. -/
def leading (d : Decimal) : Int :=
  d.exponent + (Nat.toDigits 10 d.digits).length - 1

/-- The digits before the point. -/
def whole (d : Decimal) : List Char :=
  if d.leading < 0 then ['0']
  else
    let count := d.leading.toNat + 1
    (d.significant.take count).rightpad count '0'

/-- The digits after the point. -/
def fraction (d : Decimal) : List Char :=
  if d.leading < 0 then
    List.replicate ((-d.leading).toNat - 1) '0' ++ d.significant
  else d.significant.drop (d.leading.toNat + 1)

end Decimal

/-- How a finite double reads: its sign and its magnitude, zero having none. -/
structure Finite where
  negative : Bool
  magnitude : Option Binary

/-- Sign and magnitude of a double; none for infinities and NaN. -/
def finite? (x : Float) : Option Finite :=
  (Binary.ofBits? x.toBits).map fun b =>
    { negative := Nat.pow 2 63 ≤ x.toBits.toNat
      magnitude := if b.significand = 0 then none else some b }

/-- A double in positional notation: the shortest digits that read back, a
point only before a fractional digit, and a tie between two decimals going
up. -/
def positional (x : Float) : String :=
  match finite? x with
  | none =>
      if x.isNaN then "NaN"
      else if x < 0 then "-inf" else "inf"
  | some ⟨negative, magnitude⟩ =>
      let digits := match magnitude with
        | none => ['0']
        | some b =>
            let d := b.shortest .up
            if d.fraction.isEmpty then d.whole else d.whole ++ '.' :: d.fraction
      String.ofList (if negative then '-' :: digits else digits)

end SchemaMigration.Number
