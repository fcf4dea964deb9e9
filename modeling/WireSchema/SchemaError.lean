/-
Module: WireSchema.SchemaError
Purpose: The ways in which a list of tokens fails to be part of a schema.  An index counts tokens
  from the start of the list that was examined.
Main exports: SchemaError, SchemaError.message
-/
import WireSchema.Signal

namespace WireSchema

/-- Why a list of tokens is refused while a schema is put together. -/
inductive SchemaError where
  | emptyMessage (messageId : Int64)
  | notAMessage (messageId : Int64) (first last : Signal)
  | unmatchedEnd (signal : Signal) (name : String) (index : Nat)
  | unclosedBegin (signal : Signal) (name : String) (index : Nat)
  | missingEnd (signal : Signal) (name : String) (index : Nat)
  | missingConstantValue (name : String) (index : Nat)
  | unknownConstantValue (field value : String)
  | missingHeaderField (name : String)
  | conflictingType (name : String)
deriving Repr, DecidableEq

/-- The message for a reader. -/
def SchemaError.message : SchemaError → String
  | .emptyMessage messageId => s!"message {messageId.toInt} has no tokens"
  | .notAMessage messageId first last =>
    s!"message {messageId.toInt} must be framed by BEGIN_MESSAGE/END_MESSAGE, found " ++
      s!"{first.name}..{last.name}"
  | .unmatchedEnd signal name index => s!"unmatched {signal.name} '{name}' at token {index}"
  | .unclosedBegin signal name index => s!"{signal.name} '{name}' at token {index} is never closed"
  | .missingEnd signal name index =>
    s!"no {signal.name} found for type '{name}' starting at token {index}"
  | .missingConstantValue name index =>
    s!"token '{name}' at index {index} is constant but has no constant value"
  | .unknownConstantValue field value =>
    s!"constant field '{field}' refers to '{value}', which is not a value of its enum"
  | .missingHeaderField name => s!"header structure has no '{name}' encoding"
  | .conflictingType name => s!"type '{name}' is defined twice with different layouts"

end WireSchema
