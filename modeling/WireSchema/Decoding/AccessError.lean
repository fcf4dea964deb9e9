/-
Module: WireSchema.Decoding.AccessError
Purpose: Why bytes cannot be read or written as a schema says.  Either the buffer is too short, or
  the tokens do not have the shape that a reader walks along.  `ScopedError` adds the constructs
  that were open when the fault was met, the outermost in front.
Main exports: AccessError, ScopedError
-/
import WireSchema.Value.Text

namespace WireSchema

/-- A fault met while bytes are read or written. -/
inductive AccessError where
  | outOfBounds (index width length : Nat)
  | negativeOffset (name : String) (offset : Int32)
  | variableLength (name : String)
  | unexpectedLayout (name expected : String)
  | missingPrimitiveType (name : String)
  | notAnInteger (name : String)
  | unwritableValue (type : PrimitiveType) (value : Value)
deriving Repr, DecidableEq

/-- The message for a reader. -/
def AccessError.message : AccessError → String
  | .outOfBounds index width length =>
    s!"access of {width} bytes at index {index} is outside a buffer of {length} bytes"
  | .negativeOffset name offset =>
    s!"token '{name}' has no fixed position (offset {offset.toInt})"
  | .variableLength name => s!"token '{name}' has no fixed length"
  | .unexpectedLayout name expected => s!"'{name}' is not laid out as {expected}"
  | .missingPrimitiveType name => s!"encoding '{name}' has no primitive type"
  | .notAnInteger name => s!"encoding '{name}' does not hold an integer"
  | .unwritableValue type value => s!"cannot write {value.diagnostic} as {type.name}"

/-- A fault within the constructs that were open, the outermost in front. -/
structure ScopedError where
  scope : List String
  cause : AccessError
deriving Repr, DecidableEq

namespace ScopedError

/-- The fault as it is seen from outside one more construct. -/
def inside (name : String) (problem : ScopedError) : ScopedError :=
  { problem with scope := name :: problem.scope }

/-- The names of the open constructs with dots between them. -/
def path (problem : ScopedError) : String :=
  ".".intercalate problem.scope

/-- The message for a reader. -/
def message (problem : ScopedError) : String :=
  problem.path ++ ": " ++ problem.cause.message

end ScopedError

end WireSchema
