/-
Module: WireSchema.Number.Binary64
Purpose: A floating point value is kept as its word of 64 bits, so that every value, each word that
  is not a number included, is told apart from every other.  Comparison as numbers is a separate
  operation: it identifies the two zeros and makes a word that is not a number differ from all
  words.
Main exports: Binary64, Binary64.sameNumber, Binary64.toSingle, Binary64.ofSingle, Binary64.text
-/
import WireSchema.Number.Decimal

namespace WireSchema

/-!
Conversions to and from the format of 32 bits and from whole numbers round to nearest, halfway
cases to even.  A word that is not a number keeps its sign and the leading bits of its payload, and
becomes quiet.
-/

/-- A word of the format of 64 bits. -/
structure Binary64 where
  bits : UInt64
deriving Repr, DecidableEq, Inhabited

namespace Binary64

open BinaryFormat

/-- Whether the sign bit is set. -/
def isNegative (word : Binary64) : Bool :=
  double.signWord ≤ word.bits.toNat

/-- The word without its sign bit. -/
def magnitude (word : Binary64) : Nat :=
  word.bits.toNat % double.signWord

/-- Whether the word is not a number. -/
def isNaN (word : Binary64) : Bool :=
  double.infinity < word.magnitude

/-- The word with a given sign and magnitude. -/
def ofParts (negative : Bool) (magnitude : Nat) : Binary64 :=
  ⟨UInt64.ofNat ((if negative then double.signWord else 0) + magnitude)⟩

/-- The canonical quiet word that is not a number. -/
def nan : Binary64 := ⟨0x7ff8000000000000⟩

/-- Whether two words denote the same number. -/
def sameNumber (first second : Binary64) : Bool :=
  !first.isNaN && !second.isNaN &&
    (first == second || (first.magnitude == 0 && second.magnitude == 0))

/-- The word nearest to a whole number. -/
def ofInt (number : Int) : Binary64 :=
  ofParts (number < 0) (double.nearest number.natAbs 1)

/-- A magnitude carried from one format to another. -/
def convert (source target : BinaryFormat) (magnitude : Nat) : Nat :=
  if source.infinity < magnitude then
    let payload := magnitude % source.fractionCount
    let carried := payload * target.fractionCount / source.fractionCount
    let quiet := target.fractionCount / 2
    target.infinity + quiet + carried % quiet
  else if magnitude = source.infinity then target.infinity
  else
    let (numerator, denominator) := source.ratio magnitude
    target.nearest numerator denominator

/-- The word of 32 bits nearest to a value. -/
def toSingle (word : Binary64) : UInt32 :=
  UInt32.ofNat ((if word.isNegative then single.signWord else 0) +
    convert double single word.magnitude)

/-- The value of a word of 32 bits. -/
def ofSingle (word : UInt32) : Binary64 :=
  ofParts (single.signWord ≤ word.toNat) (convert single double (word.toNat % single.signWord))

/-- A magnitude as text, given how a finite nonzero one is written. -/
def magnitudeText (format : BinaryFormat) (finite : Decimal → List Char) (magnitude : Nat) :
    List Char :=
  if format.infinity = magnitude then "inf".toList
  else finite (if magnitude = 0 then ⟨0, 0⟩ else format.shortest magnitude)

/-- A signed magnitude as text; a word that is not a number is written without its sign. -/
def signedText (format : BinaryFormat) (finite : Decimal → List Char) (negative : Bool)
    (magnitude : Nat) : String :=
  if format.infinity < magnitude then "NaN"
  else
    String.ofList ((if negative then ['-'] else []) ++ magnitudeText format finite magnitude)

/-- The shortest text that reads back, every place written out: `1`, `0.1`, `-0`, `inf`, `NaN`. -/
def text (word : Binary64) : String :=
  signedText double Decimal.plain word.isNegative word.magnitude

/-- The text of the value in the format of 32 bits. -/
def singleText (word : Binary64) : String :=
  let narrowed := word.toSingle.toNat
  signedText single Decimal.plain (single.signWord ≤ narrowed) (narrowed % single.signWord)

/-- A decimal number that shows it is not whole: a point always stands in the plain spelling, and
very large and very small numbers are written with a power of ten. -/
def pointed (decimal : Decimal) : List Char :=
  if decimal.digits ≠ 0 ∧ (decimal.places ≤ -4 ∨ 17 ≤ decimal.places) then decimal.scientific
  else
    let plain := decimal.plain
    if plain.contains '.' then plain else plain ++ ['.', '0']

/-- The shortest text that reads back and is visibly a floating point value: `1.0`, `1e16`. -/
def pointedText (word : Binary64) : String :=
  signedText double pointed word.isNegative word.magnitude

end Binary64

end WireSchema
