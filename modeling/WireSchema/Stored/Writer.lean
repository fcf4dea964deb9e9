/-
Module: WireSchema.Stored.Writer
Purpose: The stored form of a schema: a frame, the tokens of the header, and the tokens of every
  message.  Numbers have the least significant byte first.  A text is the count of its bytes in two
  bytes and then the bytes; an absent text is an empty one.
Main exports: StoredError, storedText, storedToken, storedFrame, Schema.store
-/
import WireSchema.Bytes.LittleEndian
import WireSchema.Schema.Compiled
import WireSchema.SchemaError
import WireSchema.Value.Text

namespace WireSchema

/-! ### Faults of the stored form

Why a schema cannot be stored, or why bytes do not hold a stored schema.  A position counts bytes
from the start of the input.
-/

/-- A fault of the stored form. -/
inductive StoredError where
  | unexpectedEnd (position : Nat)
  | unknownCode (field : String) (code : UInt8) (position : Nat)
  | stringTooLong (field : String) (length : Nat)
  | invalidUtf8 (position : Nat)
  | invalidValue (problem : UnreadableValue)
  | missingHeader
  | malformed (problem : SchemaError)
deriving Repr, DecidableEq

/-- The message for a reader. -/
def StoredError.message : StoredError → String
  | .unexpectedEnd position => s!"unexpected end of input at position {position}"
  | .unknownCode field code position =>
    s!"unknown {field} code {code.toNat} at position {position}"
  | .stringTooLong field length =>
    s!"{field} is {length} bytes, longer than the 65534 byte limit"
  | .invalidUtf8 position => s!"invalid UTF-8 in string at position {position}"
  | .invalidValue problem => s!"invalid value: {problem.message}"
  | .missingHeader => "no header composite in IR"
  | .malformed problem => s!"malformed IR: {problem.message}"

/-! ### Writing it

The frame holds the number of the schema, the version of this format, the version of the schema,
the package, the namespace and the semantic version.  A token is a block of twenty-four bytes
followed by ten texts, the values among them as the schema would write them.
-/

/-- The version of the stored form. -/
def storedFormVersion : Int32 := 0

/-- The length in bytes of the longest text that can be stored. -/
def maxTextLength : Nat := 65534

/-- The four bytes of a number. -/
def storedInt32 (number : Int32) : List UInt8 :=
  littleEndian 4 number.toUInt32.toNat

/-- The bytes of a text, given the field that it belongs to. -/
def storedText (text : String × Option String) : Except StoredError (List UInt8) :=
  let bytes := Text.utf8Bytes (text.2.getD "")
  if maxTextLength < bytes.length then .error (.stringTooLong text.1 bytes.length)
  else .ok (littleEndian 2 bytes.length ++ bytes)

/-- The bytes of several texts, one after another. -/
def storedTexts (texts : List (String × Option String)) : Except StoredError (List UInt8) :=
  (texts.mapM storedText).map List.flatten

/-- The block at the start of a token. -/
def tokenBlock (token : Token) : List UInt8 :=
  storedInt32 token.offset ++ storedInt32 token.encodedLength ++ storedInt32 token.id ++
    storedInt32 token.version ++ storedInt32 (Int32.ofNat token.span) ++
    [token.signal.code, typeCode token.encoding.primitiveType, token.encoding.byteOrder.code,
      token.encoding.presence.code]

/-- The texts of a token, each with the name of its field. -/
def tokenTexts (token : Token) : List (String × Option String) :=
  let encoding := token.encoding
  let written := Option.map fun value : Value => value.schemaText encoding.primitiveType
  [("name", some token.name),
    ("const_value", written encoding.constValue),
    ("min_value", written encoding.minValue),
    ("max_value", written encoding.maxValue),
    ("null_value", written encoding.nullValue),
    ("character_encoding", encoding.characterEncoding),
    ("epoch", encoding.epoch),
    ("time_unit", encoding.timeUnit),
    ("semantic_type", encoding.semanticType),
    ("description", token.description)]

/-- The bytes of a token. -/
def storedToken (token : Token) : Except StoredError (List UInt8) :=
  (storedTexts (tokenTexts token)).map (tokenBlock token ++ ·)

/-- The bytes of the frame. -/
def storedFrame (identity : SchemaIdentity) : Except StoredError (List UInt8) :=
  let block := storedInt32 identity.id ++ storedInt32 storedFormVersion ++
    storedInt32 identity.version
  (storedTexts
    [("package_name", some identity.packageName),
      ("namespace_name", identity.namespaceName),
      ("semantic_version", identity.semanticVersion)]).map (block ++ ·)

/-- The tokens that are stored, those of the header first. -/
def Schema.storedTokens (schema : Schema) : List Token :=
  schema.header.tokens ++ schema.messages.entries.flatMap (·.2)

/-- The stored form of a schema. -/
def Schema.store (schema : Schema) : Except StoredError (List UInt8) := do
  let frame ← storedFrame schema.identity
  let tokens ← schema.storedTokens.mapM storedToken
  .ok (frame ++ tokens.flatten)

end WireSchema
