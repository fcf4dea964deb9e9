/-
Module: WireSchema.Number.Decimal
Purpose: A decimal number is a whole number of units of some power of ten.  Every decimal number is
  nearest to some magnitude of a binary format, and many decimal numbers share one magnitude;
  `BinaryFormat.shortest` chooses among them one with the fewest digits, and of those the nearest to
  the exact value.  Of two equally near ones it takes the greater.
Main exports: Decimal, Decimal.plain, Decimal.scientific, BinaryFormat.ofDecimal,
  BinaryFormat.shortest
-/
import WireSchema.Number.BinaryFormat

namespace WireSchema

/-!
Two spellings are offered.  The plain spelling writes every place and never an exponent; the
scientific spelling writes one digit before the point and the power of ten after the letter `e`.
-/

/-- The number `digits * 10 ^ exponent`. -/
structure Decimal where
  digits : Nat
  exponent : Int
deriving Repr, DecidableEq

namespace Decimal

/-- The same number with a last digit other than zero, unless the number is zero. -/
def normal (decimal : Decimal) : Decimal :=
  if decimal.digits ≠ 0 ∧ decimal.digits % 10 = 0 then
    normal ⟨decimal.digits / 10, decimal.exponent + 1⟩
  else decimal
termination_by decimal.digits
decreasing_by omega

/-- The digits of a number as text, without leading zeros. -/
def digitText (number : Nat) : List Char :=
  Nat.toDigits 10 number

/-- The exponent of the least power of ten that is above the number. -/
def places (decimal : Decimal) : Int :=
  (digitText decimal.digits).length + decimal.exponent

/-- Every place of the number written out, without an exponent. -/
def plain (decimal : Decimal) : List Char :=
  let digits := digitText decimal.digits
  if decimal.digits = 0 then ['0']
  else if 0 ≤ decimal.exponent then digits ++ List.replicate decimal.exponent.toNat '0'
  else if 0 < decimal.places then
    digits.take decimal.places.toNat ++ '.' :: digits.drop decimal.places.toNat
  else '0' :: '.' :: (List.replicate (-decimal.places).toNat '0' ++ digits)

/-- One digit, the other digits after a point if there are any, and the power of ten. -/
def scientific (decimal : Decimal) : List Char :=
  let power := (toString (decimal.places - 1)).toList
  match digitText decimal.digits with
  | [] => []
  | [digit] => digit :: 'e' :: power
  | digit :: others => digit :: '.' :: (others ++ 'e' :: power)

end Decimal

namespace BinaryFormat

/-- The magnitude nearest to a decimal number.  A power of ten is at least a power of eight and at
most one of sixteen, so the binary size of the digits settles the numbers far outside the range of
the format; all others are rounded exactly. -/
def ofDecimal (format : BinaryFormat) (decimal : Decimal) : Nat :=
  let size : Int := decimal.digits.log2
  let reach : Int := format.exponentCount
  let exponent := decimal.exponent
  if decimal.digits = 0 ∨ (exponent < 0 ∧ size + 1 + 3 * exponent < -reach) then 0
  else if reach < size + (if exponent < 0 then 4 * exponent else 3 * exponent) then
    format.infinity
  else
    let (up, down) := powerRatio 10 exponent
    format.nearest (decimal.digits * up) down

/-- The exponent of the least power of ten that is above a positive quotient. -/
def placesOfRatio (numerator denominator : Nat) : Int :=
  if denominator ≤ numerator then (Decimal.digitText (numerator / denominator)).length
  else
    let zeros := (Decimal.digitText (denominator / numerator)).length - 1
    if denominator ≤ numerator * Nat.pow 10 zeros then 1 - zeros else -zeros

/-- Of the two neighbours of a quotient among the multiples of a power of ten, the one to show for
a magnitude: it has to be nearest to that magnitude, and the nearer of two is taken. -/
def gridNeighbour (format : BinaryFormat) (magnitude numerator denominator : Nat)
    (exponent : Int) : Option Decimal :=
  let (up, down) := powerRatio 10 exponent
  let scaled := numerator * down
  let unit := denominator * up
  let below : Decimal := ⟨scaled / unit, exponent⟩
  let above : Decimal := ⟨scaled / unit + 1, exponent⟩
  if format.ofDecimal below = magnitude then
    if format.ofDecimal above = magnitude ∧ unit ≤ 2 * (scaled % unit) then some above
    else some below
  else if format.ofDecimal above = magnitude then some above
  else none

/-- Every digit of the number that a finite magnitude denotes. -/
def exactDecimal (format : BinaryFormat) (magnitude : Nat) : Decimal :=
  let (significand, exponent) := format.unpack magnitude
  if 0 ≤ exponent then ⟨significand * Nat.pow 2 exponent.toNat, 0⟩
  else ⟨significand * Nat.pow 5 (-exponent).toNat, exponent⟩

/-- The shortest decimal number nearest to a finite magnitude.  Seventeen digits are always enough
for the formats here; the exact value stands behind them. -/
def shortest (format : BinaryFormat) (magnitude : Nat) : Decimal :=
  let (numerator, denominator) := format.ratio magnitude
  let places := placesOfRatio numerator denominator
  let found := (List.range 17).findSome? fun count : Nat =>
    format.gridNeighbour magnitude numerator denominator (places - count - 1)
  (found.getD (format.exactDecimal magnitude)).normal

end BinaryFormat

end WireSchema
