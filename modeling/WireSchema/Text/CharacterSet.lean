/-
Module: WireSchema.Text.CharacterSet
Purpose: Variable data names the character set of its bytes.  The names are compared without regard
  to case.  Bytes without a character set are shown as they are, in hexadecimal.
Main exports: TextError, CharacterSet, CharacterSet.decode, ofVarData
-/
import WireSchema.Text.Utf8

namespace WireSchema.Text

/-- The bytes of a field that are no text, or not a known kind of text. -/
inductive TextError where
  | unsupported (field characterSet : String)
  | invalid (field characterSet : String) (position : Nat)
deriving Repr, DecidableEq

/-- The message for a reader. -/
def TextError.message : TextError → String
  | .unsupported field characterSet =>
    s!"unsupported character encoding '{characterSet}' for '{field}'"
  | .invalid field characterSet position =>
    s!"invalid {characterSet} text in '{field}' at byte {position}"

/-- The character sets that are known. -/
inductive CharacterSet where
  | utf8
  | ascii
  | latin1
deriving Repr, DecidableEq

/-- The character set of a name. -/
def CharacterSet.ofName? (name : String) : Option CharacterSet :=
  match String.ofList (name.toList.map Char.toUpper) with
  | "UTF-8" | "UTF8" => some .utf8
  | "US-ASCII" | "ASCII" => some .ascii
  | "ISO-8859-1" | "LATIN1" => some .latin1
  | _ => none

/-- The text of bytes in a character set, or the index of the first byte that is no text. -/
def CharacterSet.decode (characterSet : CharacterSet) (content : List UInt8) :
    Except Nat String :=
  match characterSet with
  | .utf8 =>
    match ofUtf8? content with
    | some text => .ok text
    | none => .error (validLength content)
  | .ascii =>
    match content.findIdx? (fun byte => 0x80 ≤ byte) with
    | some position => .error position
    | none => .ok (ofLatin1 content)
  | .latin1 => .ok (ofLatin1 content)

/-- One byte in lowercase hexadecimal. -/
def hexByte (byte : UInt8) : String :=
  String.ofList [Nat.digitChar (byte.toNat / 16), Nat.digitChar (byte.toNat % 16)]

/-- The text of the variable data of a field. -/
def ofVarData (field : String) (content : List UInt8) (characterSet : Option String) :
    Except TextError String :=
  match characterSet with
  | none => .ok (String.join (content.map hexByte))
  | some name =>
    match CharacterSet.ofName? name with
    | none => .error (.unsupported field name)
    | some known => (known.decode content).mapError (TextError.invalid field name)

end WireSchema.Text
