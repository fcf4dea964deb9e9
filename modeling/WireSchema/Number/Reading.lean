/-
Module: WireSchema.Number.Reading
Purpose: Whole numbers are written in decimal digits of the ASCII range, after an optional sign.
  Floating point numbers allow a point, with a digit on at least one side of it, and a power of ten
  after the letter `e`; three words name infinity and the value that is not a number, in any mixture
  of case.
Main exports: integer?, int64?, uint64?, decimal?, binary64?
-/
import WireSchema.Number.Binary64

namespace WireSchema.Reading

/-!
Reading never rounds twice: the exact decimal number is rounded once to the nearest word.
-/

/-- The optional sign in front of a text, and the text behind it. -/
def splitSign : List Char → Bool × List Char
  | '-' :: rest => (true, rest)
  | '+' :: rest => (false, rest)
  | text => (false, text)

/-- One or more decimal digits and nothing else. -/
def natural? (text : List Char) : Option Nat :=
  if text ≠ [] ∧ text.all Char.isDigit then some (Nat.ofDigitChars 10 text 0) else none

/-- A whole number with an optional sign. -/
def integer? (text : List Char) : Option Int :=
  let (negative, digits) := splitSign text
  (natural? digits).map fun number => if negative then -(number : Int) else number

/-- A whole number in the range of 64 bits with sign. -/
def int64? (text : List Char) : Option Int64 :=
  (integer? text).bind fun number =>
    if Int64.minValue.toInt ≤ number ∧ number ≤ Int64.maxValue.toInt then
      some (Int64.ofInt number)
    else none

/-- A whole number in the range of 64 bits without sign; a minus sign is refused, also before a
zero. -/
def uint64? (text : List Char) : Option UInt64 :=
  let (negative, digits) := splitSign text
  (natural? digits).bind fun number =>
    if negative = false ∧ number < UInt64.size then some (UInt64.ofNat number) else none

/-- The power of ten after the letter `e`.  Once it has passed `65535` further digits are not
counted; no text of any practical length can tell. -/
def exponentDigits (text : List Char) : Nat :=
  text.foldl (fun sum digit => if sum < 0x10000 then 10 * sum + (digit.toNat - 48) else sum) 0

/-- What may follow the digits of a floating point number: nothing, or a power of ten. -/
def exponent? : List Char → Option Int
  | [] => some 0
  | mark :: rest =>
    let (negative, digits) := splitSign rest
    if (mark = 'e' ∨ mark = 'E') ∧ digits ≠ [] ∧ digits.all Char.isDigit then
      some (if negative then -(exponentDigits digits : Int) else exponentDigits digits)
    else none

/-- The digits after a point, if a point comes next, and what is left. -/
def splitFraction : List Char → List Char × List Char
  | '.' :: rest => (rest.takeWhile Char.isDigit, rest.dropWhile Char.isDigit)
  | text => ([], text)

/-- A decimal number without sign. -/
def decimal? (text : List Char) : Option Decimal :=
  let whole := text.takeWhile Char.isDigit
  let (fraction, rest) := splitFraction (text.dropWhile Char.isDigit)
  if whole = [] ∧ fraction = [] then none
  else (exponent? rest).map fun exponent =>
    ⟨Nat.ofDigitChars 10 (whole ++ fraction) 0, exponent - fraction.length⟩

/-- The magnitude that a text without sign names or writes. -/
def magnitude? (text : List Char) : Option Nat :=
  let word := String.ofList (text.map Char.toLower)
  if word = "inf" ∨ word = "infinity" then some BinaryFormat.double.infinity
  else if word = "nan" then some Binary64.nan.magnitude
  else (decimal? text).map BinaryFormat.double.ofDecimal

/-- A floating point number with an optional sign. -/
def binary64? (text : List Char) : Option Binary64 :=
  let (negative, rest) := splitSign text
  (magnitude? rest).map (Binary64.ofParts negative)

end WireSchema.Reading
