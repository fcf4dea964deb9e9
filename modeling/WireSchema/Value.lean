/-
Module: WireSchema.Value
Purpose: A value comes from the text of a schema (a constant, a bound, the sentinel for an absent
  value) or from the bytes of a message.  A single character is held by its code; arrays of
  characters and text without a type are held as bytes.
Main exports: Value, Value.agrees, PrimitiveType.nullValue, PrimitiveType.minValue,
  PrimitiveType.maxValue
-/
import WireSchema.Number.Binary64
import WireSchema.PrimitiveType

namespace WireSchema

/-!
Every primitive type sets one value aside as the sentinel and has a least and a greatest value
besides it.
-/

/-- A scalar, or a string of bytes. -/
inductive Value where
  | int (number : Int64)
  | uint (number : UInt64)
  | float (number : Binary64)
  | bytes (content : List UInt8)
deriving Repr, DecidableEq, Inhabited

namespace Value

/-- The value as a number with a sign, bit for bit. -/
def toInt64? : Value → Option Int64
  | .int number => some number
  | .uint number => some number.toInt64
  | .float _ | .bytes _ => none

/-- The value as a number without a sign, bit for bit. -/
def toUInt64? : Value → Option UInt64
  | .int number => some number.toUInt64
  | .uint number => some number
  | .float _ | .bytes _ => none

/-- The value as the nearest floating point number. -/
def toBinary64? : Value → Option Binary64
  | .int number => some (Binary64.ofInt number.toInt)
  | .uint number => some (Binary64.ofInt number.toNat)
  | .float number => some number
  | .bytes _ => none

/-- The bytes of a string of bytes. -/
def toBytes? : Value → Option (List UInt8)
  | .bytes content => some content
  | _ => none

/-- Whether two values hold the same integer, with or without a sign. -/
def sameInteger (first second : Value) : Bool :=
  match first.toUInt64?, second.toUInt64? with
  | some one, some other => one == other
  | _, _ => false

/-- Whether two values are equal.  Floating point numbers are compared as numbers, so the value
that is not a number differs from itself. -/
def agrees : Value → Value → Bool
  | .int first, .int second => first == second
  | .uint first, .uint second => first == second
  | .float first, .float second => first.sameNumber second
  | .bytes first, .bytes second => first == second
  | _, _ => false

end Value

/-- Whether two optional values are both absent or both there and equal. -/
def optionalAgrees : Option Value → Option Value → Bool
  | none, none => true
  | some first, some second => first.agrees second
  | _, _ => false

namespace PrimitiveType

/-- The greatest finite number of the format of 32 bits. -/
def greatestSingle : Binary64 := ⟨0x47efffffe0000000⟩

/-- The greatest finite number of the format of 64 bits. -/
def greatestDouble : Binary64 := ⟨0x7fefffffffffffff⟩

/-- The number of the opposite sign. -/
def negated (word : Binary64) : Binary64 :=
  Binary64.ofParts (!word.isNegative) word.magnitude

/-- The value that stands on the wire for an absent one. -/
def nullValue : PrimitiveType → Value
  | .char => .uint 0
  | .int8 => .int (-0x80)
  | .int16 => .int (-0x8000)
  | .int32 => .int (-0x80000000)
  | .int64 => .int (-0x8000000000000000)
  | .uint8 => .uint 0xff
  | .uint16 => .uint 0xffff
  | .uint32 => .uint 0xffffffff
  | .uint64 => .uint 0xffffffffffffffff
  | .float | .double => .float Binary64.nan

/-- The least value that is not the sentinel. -/
def minValue : PrimitiveType → Value
  | .char => .uint 0x20
  | .int8 => .int (-0x7f)
  | .int16 => .int (-0x7fff)
  | .int32 => .int (-0x7fffffff)
  | .int64 => .int (-0x7fffffffffffffff)
  | .uint8 | .uint16 | .uint32 | .uint64 => .uint 0
  | .float => .float (negated greatestSingle)
  | .double => .float (negated greatestDouble)

/-- The greatest value that is not the sentinel. -/
def maxValue : PrimitiveType → Value
  | .char => .uint 0x7e
  | .int8 => .int 0x7f
  | .int16 => .int 0x7fff
  | .int32 => .int 0x7fffffff
  | .int64 => .int 0x7fffffffffffffff
  | .uint8 => .uint 0xfe
  | .uint16 => .uint 0xfffe
  | .uint32 => .uint 0xfffffffe
  | .uint64 => .uint 0xfffffffffffffffe
  | .float => .float greatestSingle
  | .double => .float greatestDouble

end PrimitiveType

end WireSchema
