/-
Module: WireSchema.Value.Text
Purpose: A schema writes its values as text.  `Value.parse` reads such a text for a primitive type,
  and `Value.schemaText` writes it again.  White space around a number is skipped; a text of
  characters is taken as it stands, and a single character of the first 256 is one code on the wire.
Main exports: UnreadableValue, Value.parse, Value.schemaText, Value.display
-/
import WireSchema.Number.Reading
import WireSchema.Text.Characters
import WireSchema.Text.Utf8
import WireSchema.Value

namespace WireSchema

/-!
`Value.display` is the form for a reader: an array of characters ends at its first zero byte, and
each byte is shown as the character of that code.
-/

/-- A text that does not spell a value of the wanted type. -/
structure UnreadableValue where
  text : String
  type : Option PrimitiveType
deriving Repr, DecidableEq

/-- The message for a reader. -/
def UnreadableValue.message (problem : UnreadableValue) : String :=
  let subject := "cannot parse " ++ Text.quoted problem.text
  match problem.type with
  | some type => subject ++ " as " ++ type.name
  | none => subject

namespace Value

/-- A text of characters: the code of a lone character of the first 256, or else the bytes. -/
def ofCharacters (text : String) : Value :=
  match text.toList with
  | [character] =>
    if character.toNat ≤ 0xff then .uint (UInt64.ofNat character.toNat)
    else .bytes (Text.utf8Bytes text)
  | _ => .bytes (Text.utf8Bytes text)

/-- The value that a text spells for a type that is known, if it does. -/
def parseAs? (type : PrimitiveType) (text : String) : Option Value :=
  match type with
  | .char => some (ofCharacters text)
  | .int8 | .int16 | .int32 | .int64 => (Reading.int64? (Text.trim text.toList)).map .int
  | .uint8 | .uint16 | .uint32 | .uint64 => (Reading.uint64? (Text.trim text.toList)).map .uint
  | .float | .double => (Reading.binary64? (Text.trim text.toList)).map .float

/-- The value that a schema text spells.  Without a type the text itself is the value. -/
def parse (text : String) (type : Option PrimitiveType) : Except UnreadableValue Value :=
  match type with
  | none => .ok (.bytes (Text.utf8Bytes text))
  | some known =>
    match parseAs? known text with
    | some value => .ok value
    | none => .error ⟨text, type⟩

/-- The character of a code among the first 256, as a text. -/
def characterText (code : UInt64) : String :=
  (Char.ofNat code.toNat).toString

/-- The value as a reader sees it. -/
def display : Value → String
  | .int number => toString number.toInt
  | .uint number => toString number.toNat
  | .float number => number.text
  | .bytes content => Text.ofLatin1 (content.takeWhile (· ≠ 0))

/-- The value as a schema writes it. -/
def schemaText (value : Value) (type : Option PrimitiveType) : String :=
  match value with
  | .bytes content => Text.ofUtf8Lossy content
  | .uint code => if type = some .char ∧ code ≤ 0xff then characterText code else value.display
  | _ => value.display

/-- The value as a diagnostic shows it, its kind in front. -/
def diagnostic : Value → String
  | .int number => "Int(" ++ toString number.toInt ++ ")"
  | .uint number => "UInt(" ++ toString number.toNat ++ ")"
  | .float number => "Float(" ++ number.pointedText ++ ")"
  | .bytes content =>
    "Bytes([" ++ ", ".intercalate (content.map fun byte => toString byte.toNat) ++ "])"

end Value

end WireSchema
