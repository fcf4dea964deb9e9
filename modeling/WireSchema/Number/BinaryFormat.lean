/-
Module: WireSchema.Number.BinaryFormat
Purpose: A format is fixed by two widths, that of the fraction and that of the exponent.  A word of
  the format without its sign bit is called a magnitude here.  A finite magnitude denotes `m * 2 ^
  q` for a whole number `m`, and larger magnitudes denote larger numbers.
Main exports: BinaryFormat, BinaryFormat.unpack, BinaryFormat.nearest, BinaryFormat.ratio
-/

namespace WireSchema

/-!
`BinaryFormat.nearest` rounds an exact quotient of whole numbers to a magnitude, halfway cases to
the even neighbour.  It works throughout in exact arithmetic.
-/

/-- The widths in bits of the two parts of a magnitude. -/
structure BinaryFormat where
  fractionBits : Nat
  exponentBits : Nat
deriving Repr, DecidableEq

namespace BinaryFormat

/-- The format of 32 bits. -/
def single : BinaryFormat := ⟨23, 8⟩

/-- The format of 64 bits. -/
def double : BinaryFormat := ⟨52, 11⟩

/-- The number of fractions, which is also the weight of the lowest exponent bit. -/
def fractionCount (format : BinaryFormat) : Nat :=
  Nat.pow 2 format.fractionBits

/-- The number of exponents. -/
def exponentCount (format : BinaryFormat) : Nat :=
  Nat.pow 2 format.exponentBits

/-- The magnitude of infinity; the magnitudes beyond it are not numbers. -/
def infinity (format : BinaryFormat) : Nat :=
  (format.exponentCount - 1) * format.fractionCount

/-- The word of which only the sign bit is set. -/
def signWord (format : BinaryFormat) : Nat :=
  format.exponentCount * format.fractionCount

/-- The exponent of the finest grid of the format. -/
def leastExponent (format : BinaryFormat) : Int :=
  2 - (format.exponentCount / 2 : Nat) - format.fractionBits

/-- The `m` and the `q` of the number `m * 2 ^ q` that a finite magnitude denotes. -/
def unpack (format : BinaryFormat) (magnitude : Nat) : Nat × Int :=
  let exponent := magnitude / format.fractionCount
  let fraction := magnitude % format.fractionCount
  if exponent = 0 then (fraction, format.leastExponent)
  else (fraction + format.fractionCount, format.leastExponent + exponent - 1)

/-- The whole number nearest to a quotient, halfway cases to the even neighbour. -/
def roundQuotient (numerator denominator : Nat) : Nat :=
  let quotient := numerator / denominator
  let twice := 2 * (numerator % denominator)
  if twice < denominator ∨ (twice = denominator ∧ quotient % 2 = 0) then quotient
  else quotient + 1

/-- A power of a base as a quotient of whole numbers. -/
def powerRatio (base : Nat) (exponent : Int) : Nat × Nat :=
  if 0 ≤ exponent then (Nat.pow base exponent.toNat, 1) else (1, Nat.pow base (-exponent).toNat)

/-- The exponent of the greatest power of two that is not above a positive quotient. -/
def floorLog2 (numerator denominator : Nat) : Int :=
  let guess : Int := (numerator.log2 : Int) - denominator.log2
  let (up, down) := powerRatio 2 guess
  if denominator * up ≤ numerator * down then guess else guess - 1

/-- The magnitude nearest to a quotient.  Consecutive grids of the format meet, so a significand
that rounds up to the next power of two carries into the exponent by plain addition. -/
def nearest (format : BinaryFormat) (numerator denominator : Nat) : Nat :=
  if numerator = 0 then 0
  else
    let wanted := floorLog2 numerator denominator - format.fractionBits
    let exponent := max wanted format.leastExponent
    let (up, down) := powerRatio 2 exponent
    let significand := roundQuotient (numerator * down) (denominator * up)
    let magnitude := (exponent - format.leastExponent).toNat * format.fractionCount + significand
    min magnitude format.infinity

/-- The exact quotient that a finite magnitude denotes. -/
def ratio (format : BinaryFormat) (magnitude : Nat) : Nat × Nat :=
  let (significand, exponent) := format.unpack magnitude
  let (up, down) := powerRatio 2 exponent
  (significand * up, down)

end BinaryFormat

end WireSchema
