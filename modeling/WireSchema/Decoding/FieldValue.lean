/-
Module: WireSchema.Decoding.FieldValue
Purpose: A field is read from the buffer, or is fixed by the schema, or is newer than the sender's
  version of the schema and therefore not there at all.  An array is several values; an array of
  characters is read as a single string of bytes.
Main exports: FieldValue, FieldValue.first?, FieldValue.isPresent, FieldValue.text
-/
import WireSchema.Value.Text

namespace WireSchema

/-- The value of a field or of a member of a composite. -/
inductive FieldValue where
  | present (values : List Value)
  | constant (value : Value)
  | notPresent (null : Value)
deriving Repr, DecidableEq

/-- The text of one scalar: a character for its code, nothing for the code zero, and a number of 32
bits in as few digits as that width needs. -/
def Value.scalarText (value : Value) (type : Option PrimitiveType) : String :=
  match value, type with
  | .uint code, some .char =>
    if code = 0 then ""
    else if code ≤ 0xff then characterText code
    else value.display
  | .float number, some .float => number.singleText
  | _, _ => value.display

namespace FieldValue

/-- The first value; for a scalar, the only one. -/
def first? : FieldValue → Option Value
  | .present values => values.head?
  | .constant value | .notPresent value => some value

/-- Whether the value was read from the buffer. -/
def isPresent : FieldValue → Bool
  | .present _ => true
  | .constant _ | .notPresent _ => false

/-- The text of the field, the elements of an array separated by commas. -/
def text (fieldValue : FieldValue) (type : Option PrimitiveType) : String :=
  match fieldValue with
  | .present values => ", ".intercalate (values.map (Value.scalarText · type))
  | .constant value | .notPresent value => value.scalarText type

end FieldValue

end WireSchema
