/-
Module: WireSchema.Schema.HeaderStructure
Purpose: Every message on the wire starts with the same composite.  Four of its encodings are known
  by name and tell a reader how to go on: the length of the root block, the template of the message,
  the schema, and the version of the schema that the sender used.
Main exports: HeaderStructure, HeaderStructure.ofTokens, HeaderStructure.encodedLength
-/
import WireSchema.SchemaError
import WireSchema.Token

namespace WireSchema

/-- The tokens of the header, and the four encodings known by name. -/
structure HeaderStructure where
  tokens : List Token
  blockLength : Token
  templateId : Token
  schemaId : Token
  schemaVersion : Token
deriving Repr, DecidableEq

namespace HeaderStructure

/-- The first encoding of a name. -/
def findField (tokens : List Token) (name : String) : Except SchemaError Token :=
  match tokens.find? (Token.isNamed .encoding name) with
  | some token => .ok token
  | none => .error (.missingHeaderField name)

/-- The header that some tokens describe, if the four encodings are among them. -/
def ofTokens (tokens : List Token) : Except SchemaError HeaderStructure := do
  let blockLength ← findField tokens "blockLength"
  let templateId ← findField tokens "templateId"
  let schemaId ← findField tokens "schemaId"
  let schemaVersion ← findField tokens "version"
  .ok { tokens, blockLength, templateId, schemaId, schemaVersion }

/-- Where an encoding ends, if its position is fixed. -/
def fieldEnd? (token : Token) : Option Nat :=
  if token.signal = .encoding ∧ 0 ≤ token.offset then
    some (token.offset.toNatClampNeg + token.encodedLength.toNatClampNeg)
  else none

/-- The length of the header in bytes: the length of the composite, or else the end of the last of
its encodings. -/
def encodedLength (header : HeaderStructure) : Nat :=
  let ends := (header.tokens.filterMap fieldEnd?).foldl max 0
  match header.tokens with
  | [] => ends
  | first :: _ =>
    if first.signal = .beginComposite ∧ 0 < first.encodedLength then
      first.encodedLength.toNatClampNeg
    else ends

end HeaderStructure

end WireSchema
