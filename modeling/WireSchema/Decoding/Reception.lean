/-
Module: WireSchema.Decoding.Reception
Purpose: Receive a message.  Its header says which template it follows, how long its root block is,
  and which version of the schema its sender used.  That is enough to pick the tokens from the
  schema and to read the root block behind the header.
Main exports: MessageHeader, HeaderStructure.read, ReceptionError, Schema.receive
-/
import WireSchema.Decoding.Primitive
import WireSchema.Decoding.Traversal
import WireSchema.Schema.Compiled

namespace WireSchema

/-! ### The header

The four numbers are each read by the token that describes it.  They are read in a fixed order,
which decides the fault of a header with several.
-/

/-- The header of one message. -/
structure MessageHeader where
  blockLength : UInt64
  templateId : Int64
  schemaId : UInt64
  version : Int32
deriving Repr, DecidableEq

namespace HeaderStructure

/-- The number that a token of the header describes, for a header at an offset. -/
def readField (buffer : Buffer) (offset : Nat) (token : Token) : Except AccessError UInt64 := do
  let position ← positionOf offset token
  readUnsigned buffer position token

/-- The length of the root block. -/
def readBlockLength (header : HeaderStructure) (buffer : Buffer) (offset : Nat) :
    Except AccessError UInt64 :=
  readField buffer offset header.blockLength

/-- The number of the template, bit for bit as one with a sign. -/
def readTemplateId (header : HeaderStructure) (buffer : Buffer) (offset : Nat) :
    Except AccessError Int64 :=
  (readField buffer offset header.templateId).map UInt64.toInt64

/-- The number of the schema. -/
def readSchemaId (header : HeaderStructure) (buffer : Buffer) (offset : Nat) :
    Except AccessError UInt64 :=
  readField buffer offset header.schemaId

/-- The version of the schema, its low bits as a number with a sign. -/
def readSchemaVersion (header : HeaderStructure) (buffer : Buffer) (offset : Nat) :
    Except AccessError Int32 :=
  (readField buffer offset header.schemaVersion).map fun number => number.toUInt32.toInt32

/-- All four numbers of the header at an offset. -/
def read (header : HeaderStructure) (buffer : Buffer) (offset : Nat) :
    Except AccessError MessageHeader := do
  let blockLength ← header.readBlockLength buffer offset
  let templateId ← header.readTemplateId buffer offset
  let schemaId ← header.readSchemaId buffer offset
  let version ← header.readSchemaVersion buffer offset
  .ok { blockLength, templateId, schemaId, version }

end HeaderStructure

/-! ### The message behind it -/

/-- Why a message cannot be taken up: its header is unreadable, or names no known template. -/
inductive ReceptionError where
  | unreadableHeader (problem : AccessError)
  | unknownTemplate (templateId : Int64)
deriving Repr, DecidableEq

/-- Read the message whose header is at an offset of a buffer. -/
def Schema.receive (schema : Schema) (buffer : Buffer) (offset : Nat) :
    Except ReceptionError (Walk Nat) :=
  match schema.header.read buffer offset with
  | .error problem => .error (.unreadableHeader problem)
  | .ok header =>
    match schema.messages.get? header.templateId with
    | none => .error (.unknownTemplate header.templateId)
    | some tokens =>
      let start := advance offset schema.header.encodedLength
      .ok (decode buffer start header.version header.blockLength.toNat tokens)

end WireSchema
