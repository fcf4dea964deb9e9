/-
Module: WireSchema.Decoding.Primitive
Purpose: One scalar is read from, or written to, a window of a buffer that has the width of its
  type.  Signed integers are extended by their sign, characters count as unsigned integers, and
  floating point numbers are widened.  A number that is written loses what does not fit the window.
Main exports: Buffer, advance, slice, readPrimitive, writePrimitive, readUnsigned, positionOf
-/
import WireSchema.Bytes.LittleEndian
import WireSchema.Decoding.AccessError
import WireSchema.Token

namespace WireSchema

/-!
Positions are numbers of 64 bits.  A sum of positions that would pass the last of them stops
there, which no buffer reaches.
-/

/-- The bytes of a message. -/
abbrev Buffer := Array UInt8

/-- The last position. -/
def lastPosition : Nat := UInt64.size - 1

/-- The position some bytes further on. -/
def advance (position distance : Nat) : Nat :=
  min (position + distance) lastPosition

/-- A stretch of a buffer. -/
def slice (buffer : Buffer) (index length : Nat) : Except AccessError (List UInt8) :=
  if index + length ≤ buffer.size then .ok (buffer.extract index (index + length)).toList
  else .error (.outOfBounds index length buffer.size)

/-- Bytes put in the order of the wire, or taken out of it. -/
def ordered (order : ByteOrder) (bytes : List UInt8) : List UInt8 :=
  match order with
  | .littleEndian => bytes
  | .bigEndian => bytes.reverse

/-- The value of a word of the width of a type. -/
def valueOfWord (type : PrimitiveType) (word : Nat) : Value :=
  match type with
  | .char | .uint8 | .uint16 | .uint32 | .uint64 => .uint (UInt64.ofNat word)
  | .int8 | .int16 | .int32 | .int64 =>
    .int (Int64.ofInt (Int.bmod word (wordCount type.size)))
  | .float => .float (Binary64.ofSingle (UInt32.ofNat word))
  | .double => .float ⟨UInt64.ofNat word⟩

/-- The word that a value becomes for a type, if it can. -/
def wordOfValue? (type : PrimitiveType) (value : Value) : Option Nat :=
  match type with
  | .float => value.toBinary64?.map fun number => number.toSingle.toNat
  | .double => value.toBinary64?.map fun number => number.bits.toNat
  | _ => value.toUInt64?.map UInt64.toNat

/-- Read one scalar. -/
def readPrimitive (buffer : Buffer) (index : Nat) (type : PrimitiveType) (order : ByteOrder) :
    Except AccessError Value := do
  let bytes ← slice buffer index type.size
  .ok (valueOfWord type (ofLittleEndian (ordered order bytes)))

/-- A buffer with some bytes in place of those at an index. -/
def overwrite (buffer : Buffer) (index : Nat) (bytes : List UInt8) : Buffer :=
  (buffer.toList.take index ++ bytes ++ buffer.toList.drop (index + bytes.length)).toArray

/-- Write one scalar. -/
def writePrimitive (buffer : Buffer) (index : Nat) (type : PrimitiveType) (order : ByteOrder)
    (value : Value) : Except AccessError Buffer :=
  match wordOfValue? type value with
  | none => .error (.unwritableValue type value)
  | some word =>
    if index + type.size ≤ buffer.size then
      .ok (overwrite buffer index (ordered order (littleEndian type.size word)))
    else .error (.outOfBounds index type.size buffer.size)

/-- Read an integer, such as a count or a length, as one without a sign. -/
def readUnsigned (buffer : Buffer) (index : Nat) (token : Token) : Except AccessError UInt64 := do
  let some type := token.encoding.primitiveType | .error (.missingPrimitiveType token.name)
  if type.isFloat then .error (.notAnInteger token.name)
  else
    let value ← readPrimitive buffer index type token.encoding.byteOrder
    match value.toUInt64? with
    | some number => .ok number
    | none => .error (.notAnInteger token.name)

/-- The offset of a token that has to be at a fixed position. -/
def fixedOffset (token : Token) : Except AccessError Nat :=
  if token.offset < 0 then .error (.negativeOffset token.name token.offset)
  else .ok token.offset.toNatClampNeg

/-- The length of a token that has to have a fixed one. -/
def fixedLength (token : Token) : Except AccessError Nat :=
  if token.encodedLength < 0 then .error (.variableLength token.name)
  else .ok token.encodedLength.toNatClampNeg

/-- The position of a token within a block. -/
def positionOf (base : Nat) (token : Token) : Except AccessError Nat :=
  (fixedOffset token).map (advance base)

end WireSchema
