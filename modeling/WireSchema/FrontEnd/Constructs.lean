/-
Module: WireSchema.FrontEnd.Constructs
Purpose: The constructs of a schema as lists of tokens with all offsets in place, the way a schema
  is handed over by whatever read its text.  The type token of a field carries the offset of the
  field within its block, the members of a composite have offsets within the composite, and groups
  and variable data are positioned while a message is read.
Main exports: encoding, composite, enumType, setType, field, constantEnumField, group, varData,
  message, headerTokens
-/
import WireSchema.Token
import WireSchema.Value.Text

namespace WireSchema.FrontEnd

/-- The message about a text that was to become a value of a construct and is none. -/
def complaint (problem : UnreadableValue) : String :=
  "bad fixture value: " ++ problem.message

/-- An array of scalars. -/
def array (name : String) (type : PrimitiveType) (offset : Int32) (count : Nat) : Token :=
  { signal := .encoding, name, offset, encodedLength := Int32.ofNat (type.size * count),
    encoding := Encoding.ofType type }

/-- A required scalar. -/
def encoding (name : String) (type : PrimitiveType) (offset : Int32) : Token :=
  array name type offset 1

/-- A scalar that may be absent. -/
def optional (name : String) (type : PrimitiveType) (offset : Int32) : Token :=
  { encoding name type offset with
    encoding := { primitiveType := some type, presence := .optional } }

/-- A scalar with a value fixed by the schema, which takes no room. -/
def constant (name : String) (type : PrimitiveType) (offset : Int32) (text : String) :
    Except UnreadableValue Token := do
  let value ← Value.parse text (some type)
  .ok { signal := .encoding, name, offset,
        encoding :=
          { primitiveType := some type, presence := .constant, constValue := some value } }

/-- A composite around its members. -/
def composite (name : String) (offset length : Int32) (members : List Token) : List Token :=
  { signal := .beginComposite, name, offset, encodedLength := length } ::
    (members ++ [{ signal := .endComposite, name, offset, encodedLength := length }])

/-- An opening and a closing token of a type around its values. -/
def wrapType (opening closing : Signal) (name : String) (type : PrimitiveType) (offset : Int32)
    (values : List Token) : List Token :=
  let mark := fun signal : Signal =>
    ({ signal, name, offset, encodedLength := Int32.ofNat type.size,
       encoding := Encoding.ofType type } : Token)
  mark opening :: (values ++ [mark closing])

/-- A value of an enum, or a choice of a set. -/
def typeValue (signal : Signal) (type : PrimitiveType) (name : String) (value : Value) : Token :=
  { signal, name, encodedLength := Int32.ofNat type.size,
    encoding := { primitiveType := some type, constValue := some value } }

/-- An enum of named values, the values as text. -/
def enumType (name : String) (type : PrimitiveType) (offset : Int32)
    (values : List (String × String)) : Except UnreadableValue (List Token) := do
  let tokens ← values.mapM fun (valueName, text) => do
    let value ← Value.parse text (some type)
    .ok (typeValue .validValue type valueName value)
  .ok (wrapType .beginEnum .endEnum name type offset tokens)

/-- A set of named choices, each with the position of its bit. -/
def setType (name : String) (type : PrimitiveType) (offset : Int32)
    (choices : List (String × UInt64)) : List Token :=
  wrapType .beginSet .endSet name type offset
    (choices.map fun (choice, bit) => typeValue .choice type choice (.uint bit))

/-- The tokens of a type between an opening token of a field and the closing token like it. -/
def wrapField (opening : Token) (typeTokens : List Token) : List Token :=
  opening :: (typeTokens ++ [{ opening with signal := .endField }])

/-- A field around the tokens of its type.  Offset, length, version, presence and constant value
are those of the first type token. -/
def field (name : String) (id : Int32) (typeTokens : List Token) : List Token :=
  let first := typeTokens.headD { signal := .encoding, name }
  wrapField
    { signal := .beginField, name, id, version := first.version, offset := first.offset,
      encodedLength := first.encodedLength,
      encoding :=
        { presence := first.encoding.presence, constValue := first.encoding.constValue } }
    typeTokens

/-- A field fixed to one value of an enum, which it names as in `Model.C`. -/
def constantEnumField (name : String) (id : Int32) (reference : String)
    (enumTokens : List Token) : List Token :=
  let offset := (enumTokens.headD { signal := .encoding, name }).offset
  wrapField
    { signal := .beginField, name, id, offset,
      encoding :=
        { presence := .constant, constValue := some (.bytes (Text.utf8Bytes reference)) } }
    enumTokens

/-- Tokens that came in with a version of the schema. -/
def since (version : Int32) (tokens : List Token) : List Token :=
  tokens.map fun token => { token with version }

/-- The dimensions of a group, two numbers of two bytes. -/
def groupSizeEncoding : List Token :=
  composite "groupSizeEncoding" 0 4
    [encoding "blockLength" .uint16 0, encoding "numInGroup" .uint16 2]

/-- A repeating group around its fields, nested groups and variable data. -/
def group (name : String) (id blockLength : Int32) (body : List Token) : List Token :=
  let mark := fun signal : Signal =>
    ({ signal, name, id, offset := Token.variableLength, encodedLength := blockLength } : Token)
  mark .beginGroup :: (groupSizeEncoding ++ body ++ [mark .endGroup])

/-- Variable data with a length of two bytes, in a character set if one is given. -/
def varData (name : String) (id : Int32) (characterEncoding : Option String) : List Token :=
  let mark := fun signal : Signal =>
    ({ signal, name, id, offset := Token.variableLength,
       encodedLength := Token.variableLength } : Token)
  let content : Token :=
    { signal := .encoding, name := "varData", offset := 2, encodedLength := Token.variableLength,
      encoding := { primitiveType := some .uint8, characterEncoding } }
  mark .beginVarData ::
    (composite "varDataEncoding" 0 Token.variableLength [encoding "length" .uint16 0, content] ++
      [mark .endVarData])

/-- A message around its fields, groups and variable data. -/
def message (name : String) (id blockLength : Int32) (body : List Token) : List Token :=
  let mark := fun signal : Signal =>
    ({ signal, name, id, encodedLength := blockLength } : Token)
  mark .beginMessage :: (body ++ [mark .endMessage])

/-- The header of a message, four numbers of two bytes. -/
def headerTokens : List Token :=
  composite "messageHeader" 0 8
    [encoding "blockLength" .uint16 0, encoding "templateId" .uint16 2,
      encoding "schemaId" .uint16 4, encoding "version" .uint16 6]

end WireSchema.FrontEnd
