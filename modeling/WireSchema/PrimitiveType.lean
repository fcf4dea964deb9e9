/-
Module: WireSchema.PrimitiveType
Purpose: The eleven scalar types of the wire.  Each has a width in bytes, a name in the schema
  language and a code byte in the stored form, where the code zero is reserved for the absence of a
  type.
Main exports: PrimitiveType, PrimitiveType.size, PrimitiveType.ofName?, typeCode,
  typeOfCode?_typeCode
-/

namespace WireSchema

/-- A scalar type of the wire. -/
inductive PrimitiveType where
  | char
  | int8
  | int16
  | int32
  | int64
  | uint8
  | uint16
  | uint32
  | uint64
  | float
  | double
deriving Repr, DecidableEq, Inhabited

namespace PrimitiveType

/-- Every type, in the order of the codes. -/
def all : List PrimitiveType :=
  [.char, .int8, .int16, .int32, .int64, .uint8, .uint16, .uint32, .uint64, .float, .double]

/-- The width in bytes. -/
def size : PrimitiveType → Nat
  | .char | .int8 | .uint8 => 1
  | .int16 | .uint16 => 2
  | .int32 | .uint32 | .float => 4
  | .int64 | .uint64 | .double => 8

/-- The name in the schema language. -/
def name : PrimitiveType → String
  | .char => "char"
  | .int8 => "int8"
  | .int16 => "int16"
  | .int32 => "int32"
  | .int64 => "int64"
  | .uint8 => "uint8"
  | .uint16 => "uint16"
  | .uint32 => "uint32"
  | .uint64 => "uint64"
  | .float => "float"
  | .double => "double"

/-- The type of a given name. -/
def ofName? (name : String) : Option PrimitiveType :=
  all.find? fun type => type.name == name

/-- The code byte of a type in the stored form. -/
def code : PrimitiveType → UInt8
  | .char => 1
  | .int8 => 2
  | .int16 => 3
  | .int32 => 4
  | .int64 => 5
  | .uint8 => 6
  | .uint16 => 7
  | .uint32 => 8
  | .uint64 => 9
  | .float => 10
  | .double => 11

/-- The type of a given code byte. -/
def ofCode? (code : UInt8) : Option PrimitiveType :=
  all.find? fun type => type.code == code

/-- Whether values of the type are whole numbers with a sign. -/
def isSigned : PrimitiveType → Bool
  | .int8 | .int16 | .int32 | .int64 => true
  | _ => false

/-- Whether values of the type are floating point numbers. -/
def isFloat : PrimitiveType → Bool
  | .float | .double => true
  | _ => false

theorem size_pos (type : PrimitiveType) : 0 < type.size := by
  cases type <;> decide

theorem ofCode?_code (type : PrimitiveType) : ofCode? type.code = some type := by
  cases type <;> decide

end PrimitiveType

/-- The code byte of an optional type: zero where there is none. -/
def typeCode (type : Option PrimitiveType) : UInt8 :=
  type.elim 0 PrimitiveType.code

/-- What a code byte says about an optional type. -/
def typeOfCode? (code : UInt8) : Option (Option PrimitiveType) :=
  if code = 0 then some none else (PrimitiveType.ofCode? code).map some

theorem typeOfCode?_typeCode (type : Option PrimitiveType) :
    typeOfCode? (typeCode type) = some type := by
  cases type with
  | none => rfl
  | some known => cases known <;> decide

end WireSchema
