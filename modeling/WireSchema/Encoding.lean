/-
Module: WireSchema.Encoding
Purpose: How one scalar is laid out on the wire, together with what the schema says about its
  values.  A structural token has an encoding too, without a primitive type; a constant field keeps
  there the name of the value that it refers to.
Main exports: Presence, ByteOrder, Encoding, Encoding.agrees
-/
import WireSchema.Value

namespace WireSchema

/-- Whether a value must, may or never appears on the wire. -/
inductive Presence where
  | required
  | optional
  | constant
deriving Repr, DecidableEq, Inhabited

namespace Presence

/-- Every class of presence, in the order of the codes. -/
def all : List Presence := [.required, .optional, .constant]

/-- The code byte of the stored form. -/
def code : Presence → UInt8
  | .required => 0
  | .optional => 1
  | .constant => 2

/-- The class of a given code byte. -/
def ofCode? (code : UInt8) : Option Presence :=
  all.find? fun presence => presence.code == code

theorem ofCode?_code (presence : Presence) : ofCode? presence.code = some presence := by
  cases presence <;> decide

end Presence

/-- The order in which the bytes of a wider scalar are sent. -/
inductive ByteOrder where
  | littleEndian
  | bigEndian
deriving Repr, DecidableEq, Inhabited

namespace ByteOrder

/-- Both orders, in the order of the codes. -/
def all : List ByteOrder := [.littleEndian, .bigEndian]

/-- The code byte of the stored form. -/
def code : ByteOrder → UInt8
  | .littleEndian => 0
  | .bigEndian => 1

/-- The order of a given code byte. -/
def ofCode? (code : UInt8) : Option ByteOrder :=
  all.find? fun order => order.code == code

theorem ofCode?_code (order : ByteOrder) : ofCode? order.code = some order := by
  cases order <;> decide

end ByteOrder

/-- The layout of a scalar and the schema's remarks on it. -/
structure Encoding where
  presence : Presence := .required
  primitiveType : Option PrimitiveType := none
  byteOrder : ByteOrder := .littleEndian
  minValue : Option Value := none
  maxValue : Option Value := none
  nullValue : Option Value := none
  constValue : Option Value := none
  characterEncoding : Option String := none
  epoch : Option String := none
  timeUnit : Option String := none
  semanticType : Option String := none
deriving Repr, DecidableEq, Inhabited

namespace Encoding

/-- A required scalar of a type. -/
def ofType (type : PrimitiveType) : Encoding :=
  { primitiveType := some type }

/-- The sentinel for an absent value: the schema's, or else that of the type. -/
def applicableNull (encoding : Encoding) : Option Value :=
  encoding.nullValue <|> encoding.primitiveType.map PrimitiveType.nullValue

/-- The least value: the schema's, or else that of the type. -/
def applicableMin (encoding : Encoding) : Option Value :=
  encoding.minValue <|> encoding.primitiveType.map PrimitiveType.minValue

/-- The greatest value: the schema's, or else that of the type. -/
def applicableMax (encoding : Encoding) : Option Value :=
  encoding.maxValue <|> encoding.primitiveType.map PrimitiveType.maxValue

/-- Whether two encodings are equal, their values compared as values. -/
def agrees (first second : Encoding) : Bool :=
  first.presence == second.presence && first.primitiveType == second.primitiveType &&
    first.byteOrder == second.byteOrder &&
    optionalAgrees first.minValue second.minValue &&
    optionalAgrees first.maxValue second.maxValue &&
    optionalAgrees first.nullValue second.nullValue &&
    optionalAgrees first.constValue second.constValue &&
    first.characterEncoding == second.characterEncoding && first.epoch == second.epoch &&
    first.timeUnit == second.timeUnit && first.semanticType == second.semanticType

end Encoding

end WireSchema
