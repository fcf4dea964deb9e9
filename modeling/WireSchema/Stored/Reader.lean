/-
Module: WireSchema.Stored.Reader
Purpose: The bytes are read from front to back: the frame, and then tokens until the input ends.
  The first composite is the header.  Each range from a token that opens a message to the first one
  that closes it under the same name is added to a draft as a message, numbered by its opening
  token; tokens between messages are passed over.
Main exports: ByteCursor, StoredReader, StoredReader.token, StoredReader.contents,
  addStoredMessages, Schema.load
-/
import WireSchema.Schema.Draft
import WireSchema.Stored.Writer

namespace WireSchema

/-- What is left of the input, and how many bytes were read. -/
structure ByteCursor where
  position : Nat
  rest : List UInt8
deriving Repr, DecidableEq

/-- A reader of the stored form. -/
abbrev StoredReader := StateT ByteCursor (Except StoredError)

namespace StoredReader

/-- A given number of bytes. -/
def take (count : Nat) : StoredReader (List UInt8) := fun cursor =>
  let taken := cursor.rest.take count
  if taken.length = count then .ok (taken, ⟨cursor.position + count, cursor.rest.drop count⟩)
  else .error (.unexpectedEnd cursor.position)

/-- How many bytes were read. -/
def position : StoredReader Nat := fun cursor => .ok (cursor.position, cursor)

/-- A number of four bytes. -/
def int32 : StoredReader Int32 := do
  let bytes ← take 4
  return (UInt32.ofNat (ofLittleEndian bytes)).toInt32

/-- A single byte. -/
def byte : StoredReader UInt8 := do
  let bytes ← take 1
  return UInt8.ofNat (ofLittleEndian bytes)

/-- A text; an empty one counts as absent. -/
def text : StoredReader (Option String) := do
  let count ← take 2
  let start ← position
  let bytes ← take (ofLittleEndian count)
  if bytes = [] then return none
  else
    match Text.ofUtf8? bytes with
    | some text => return some text
    | none => throw (.invalidUtf8 start)

/-- The text of a value for a primitive type. -/
def value (type : Option PrimitiveType) : StoredReader (Option Value) := do
  match ← text with
  | none => return none
  | some written =>
    match Value.parse written type with
    | .ok value => return some value
    | .error problem => throw (.invalidValue problem)

/-- A code byte of an enumeration. -/
def coded {α : Type} (field : String) (ofCode? : UInt8 → Option α) : StoredReader α := do
  let start ← position
  let code ← byte
  match ofCode? code with
  | some found => return found
  | none => throw (.unknownCode field code start)

/-- One token. -/
def token : StoredReader Token := do
  let offset ← int32
  let encodedLength ← int32
  let id ← int32
  let version ← int32
  let storedSpan ← int32
  let signal ← coded "signal" Signal.ofCode?
  let primitiveType ← coded "primitive type" typeOfCode?
  let byteOrder ← coded "byte order" ByteOrder.ofCode?
  let presence ← coded "presence" Presence.ofCode?
  let name ← text
  let constValue ← value primitiveType
  let minValue ← value primitiveType
  let maxValue ← value primitiveType
  let nullValue ← value primitiveType
  let characterEncoding ← text
  let epoch ← text
  let timeUnit ← text
  let semanticType ← text
  let description ← text
  let encoding : Encoding :=
    { presence, primitiveType, byteOrder, minValue, maxValue, nullValue, constValue,
      characterEncoding, epoch, timeUnit, semanticType }
  return { signal, name := name.getD "", description, id, version, encodedLength, offset,
           storedSpan, encoding }

/-- Tokens until the input ends.  The bound is on their number; no token is shorter than a byte, so
the number of bytes is enough. -/
def tokens : (bound : Nat) → StoredReader (List Token)
  | 0 => return []
  | bound + 1 => do
    if (← get).rest = [] then return []
    else
      let first ← token
      let others ← tokens bound
      return first :: others

/-- The frame and the tokens of a stored schema. -/
def contents (length : Nat) : StoredReader (SchemaIdentity × List Token) := do
  let id ← int32
  let _storedVersion ← int32
  let version ← int32
  let packageName ← text
  let namespaceName ← text
  let semanticVersion ← text
  let all ← tokens length
  return ({ packageName := packageName.getD "", namespaceName, id, version, semanticVersion }, all)

end StoredReader

/-- The draft with every message among some tokens added in turn. -/
def addStoredMessages (draft : SchemaDraft) (tokens : List Token) :
    Except StoredError SchemaDraft :=
  match _ : tokens.dropWhile (·.signal ≠ .beginMessage) with
  | [] => .ok draft
  | opening :: body =>
    match body.findIdx? (Token.isNamed .endMessage opening.name) with
    | none =>
      let index := (tokens.takeWhile (·.signal ≠ .beginMessage)).length
      .error (.malformed (.unclosedBegin .beginMessage opening.name index))
    | some distance =>
      match draft.addMessage opening.id.toInt64 (opening :: body.take (distance + 1)) with
      | .error problem => .error (.malformed problem)
      | .ok extended => addStoredMessages extended (body.drop (distance + 1))
termination_by tokens.length
decreasing_by
  have shorter := (List.dropWhile_suffix (l := tokens) (·.signal ≠ .beginMessage)).length_le
  simp_all only [List.length_cons, List.length_drop]
  omega

/-- The tokens of the header at the front, and those behind it. -/
def splitHeader (tokens : List Token) : Except StoredError (List Token × List Token) :=
  match tokens with
  | [] => .error .missingHeader
  | first :: rest =>
    if first.signal = .beginComposite then
      match rest.findIdx? (Token.isNamed .endComposite first.name) with
      | none => .error .missingHeader
      | some distance => .ok (tokens.take (distance + 2), tokens.drop (distance + 2))
    else .error .missingHeader

/-- The schema that stored bytes hold, put together with the given choices. -/
def Schema.load (bytes : List UInt8) (options : SchemaOptions) : Except StoredError Schema := do
  let ((identity, tokens), _) ← (StoredReader.contents bytes.length).run ⟨0, bytes⟩
  let (headerTokens, rest) ← splitHeader tokens
  let draft ← addStoredMessages { options, identity, headerTokens } rest
  match draft.build with
  | .ok schema => .ok schema
  | .error problem => .error (.malformed problem)

end WireSchema
