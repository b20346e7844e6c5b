/-!
# The shortest decimal of a binary floating-point number

Of the decimals that read back as a given number, the one with the fewest
digits is taken, and of several with that many digits the nearest.  The search
is exact: it compares integers only.
-/

namespace SchemaMigration.Number

/-- The finite magnitude `significand · 2 ^ exponent`.  Below a power of two
the next number is half as far away as above it, which `closerBelow`
records. -/
structure Binary where
  significand : Nat
  exponent : Int
  closerBelow : Bool
deriving DecidableEq

/-- The magnitude `digits · 10 ^ exponent`. -/
structure Decimal where
  digits : Nat
  exponent : Int
deriving DecidableEq

/-- Which of two equally near decimals is taken. -/
inductive Tie
  | up
  | even
deriving DecidableEq

namespace Binary

/-- The significand of a power of two: one bit followed by fifty-two. -/
def leadingBit : Nat := Nat.pow 2 52

/-- The magnitude of the double with these bits: a sign, eleven bits of
exponent and fifty-two of fraction.  Infinities and NaN have none. -/
def ofBits? (bits : UInt64) : Option Binary :=
  let fraction : Nat := bits.toNat % leadingBit
  let biased : Nat := bits.toNat / leadingBit % 2048
  if biased = 2047 then none
  else if biased = 0 then some ⟨fraction, -1074, false⟩
  else some ⟨leadingBit + fraction, (biased : Int) - 1075, fraction = 0 && 1 < biased⟩

/-- The number measured in quarters of its last place. -/
def quarters (b : Binary) : Nat := 4 * b.significand

/-- The quarters at which the decimals that read back as the number begin. -/
def firstQuarter (b : Binary) : Nat :=
  b.quarters - if b.closerBelow then 1 else 2

/-- The quarters at which the decimals that read back as the number end. -/
def lastQuarter (b : Binary) : Nat := b.quarters + 2

/-- A quarter of the last place over `10 ^ exponent`, as a numerator and a
denominator. -/
def quarterOver (b : Binary) (exponent : Int) : Nat × Nat :=
  let two := b.exponent - 2
  (Nat.pow 2 two.toNat * Nat.pow 10 (-exponent).toNat,
    Nat.pow 2 (-two).toNat * Nat.pow 10 exponent.toNat)

/-- The multiple of `10 ^ exponent` that is written for the number, when one
reads back as it.  The ends of the interval read back only when the
significand is even. -/
def onGrid? (tie : Tie) (b : Binary) (exponent : Int) : Option Nat :=
  let (num, den) := b.quarterOver exponent
  let below := b.quarters * num / den
  let readsBack (multiple : Nat) : Bool :=
    if b.significand % 2 = 0 then
      b.firstQuarter * num ≤ multiple * den && multiple * den ≤ b.lastQuarter * num
    else
      b.firstQuarter * num < multiple * den && multiple * den < b.lastQuarter * num
  let twice := 2 * (b.quarters * num)
  let middle := (2 * below + 1) * den
  if readsBack below then
    if readsBack (below + 1) then
      if twice < middle then some below
      else if middle < twice then some (below + 1)
      else match tie with
        | .up => some (below + 1)
        | .even => some (if below % 2 = 0 then below else below + 1)
    else some below
  else if readsBack (below + 1) then some (below + 1)
  else none

/-- The exponent of the leading decimal digit of a positive number. -/
def leadingExponent (b : Binary) : Int :=
  let (num, den) := b.quarterOver 0
  let value := b.quarters * num
  if den ≤ value then ((Nat.toDigits 10 (value / den)).length : Int) - 1
  else -((Nat.toDigits 10 ((den - 1) / value)).length : Int)

/-- The exact decimal value. -/
def exact (b : Binary) : Decimal :=
  if 0 ≤ b.exponent then ⟨b.significand * Nat.pow 2 b.exponent.toNat, 0⟩
  else ⟨b.significand * Nat.pow 5 (-b.exponent).toNat, b.exponent⟩

/-- The shortest decimal that reads back as a positive number.  Seventeen
digits always suffice. -/
def shortest (tie : Tie) (b : Binary) : Decimal :=
  let leading := b.leadingExponent
  let found := (List.range 17).findSome? fun (more : Nat) =>
    let exponent := leading - (more : Int)
    (b.onGrid? tie exponent).map fun multiple => Decimal.mk multiple exponent
  found.getD b.exact

end Binary

end SchemaMigration.Number
