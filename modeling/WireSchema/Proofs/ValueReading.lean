/-
Module: WireSchema.Proofs.ValueReading
Purpose: A value that was read from a schema for some type, or without a type, is read again from
  the text that the schema would write for it.  The words that are not numbers are written alike, so
  one of them stands for all.
Main exports: Value.canonical, Value.parse_schemaText, Value.schemaText_canonical
-/
import WireSchema.Proofs.NumberReading
import WireSchema.Value.Text

namespace WireSchema

namespace Text

theorem ofUtf8?_utf8Bytes (text : String) : ofUtf8? (utf8Bytes text) = some text := by
  have valid : text.toUTF8.IsValidUTF8 := text.isValidUTF8
  change String.fromUTF8? text.toUTF8 = some text
  rw [String.fromUTF8?, dif_pos valid]
  rfl

theorem ofUtf8Lossy_utf8Bytes (text : String) : ofUtf8Lossy (utf8Bytes text) = text := by
  rw [ofUtf8Lossy, ofUtf8?_utf8Bytes]

theorem utf8Bytes_injective {first second : String} (same : utf8Bytes first = utf8Bytes second) :
    first = second := by
  have spelled := congrArg ofUtf8? same
  rwa [ofUtf8?_utf8Bytes, ofUtf8?_utf8Bytes, Option.some_inj] at spelled

theorem utf8Bytes_eq_nil {text : String} (empty : utf8Bytes text = []) : text = "" :=
  utf8Bytes_injective (empty.trans rfl)

end Text

namespace Value

/-- The value itself, with one word for all those that are not numbers. -/
def canonical : Value → Value
  | .float word => .float word.canonical
  | value => value

theorem canonical_canonical (value : Value) :
    value.canonical.canonical = value.canonical := by
  cases value with
  | float word => simp only [canonical, word.canonical_canonical]
  | int | uint | bytes => rfl

/-- A text of characters is written as it was read. -/
theorem schemaText_ofCharacters (text : String) :
    (ofCharacters text).schemaText (some .char) = text := by
  unfold ofCharacters
  split
  · rename_i character single
    split
    · rename_i small
      have word : (UInt64.ofNat character.toNat).toNat = character.toNat := by
        rw [UInt64.toNat_ofNat']
        exact Nat.mod_eq_of_lt (by omega)
      have inRange : UInt64.ofNat character.toNat ≤ 0xff := by
        rw [UInt64.le_iff_toNat_le, word]
        exact small
      rw [schemaText, if_pos ⟨rfl, inRange⟩, characterText, word, Char.ofNat_toNat,
        ← String.ofList_toList (s := text), single]
      rfl
    · exact Text.ofUtf8Lossy_utf8Bytes text
  · exact Text.ofUtf8Lossy_utf8Bytes text

/-- The text of a value that was read for a type is read for it as the same value. -/
theorem parseAs?_schemaText {type : PrimitiveType} {text : String} {value : Value}
    (read : parseAs? type text = some value) :
    parseAs? type (value.schemaText (some type)) = some value.canonical := by
  cases type with
  | char =>
      cases read
      have alreadyCanonical : (ofCharacters text).canonical = ofCharacters text := by
        unfold ofCharacters
        split
        · split <;> rfl
        · rfl
      rw [parseAs?, schemaText_ofCharacters, alreadyCanonical]
  | int8 | int16 | int32 | int64 =>
      obtain ⟨number, _, rfl⟩ := Option.map_eq_some_iff.mp read
      have again := Reading.int64?_toString number
      simp only [parseAs?, schemaText, display, again, Option.map_some, canonical]
  | uint8 | uint16 | uint32 | uint64 =>
      obtain ⟨number, _, rfl⟩ := Option.map_eq_some_iff.mp read
      have again := Reading.uint64?_toString number
      simp [parseAs?, schemaText, display, canonical, -Nat.toString_eq_repr, again]
  | float | double =>
      obtain ⟨word, _, rfl⟩ := Option.map_eq_some_iff.mp read
      simp [parseAs?, schemaText, display, Reading.binary64?_text, canonical]

/-- The text of a value that was read is read as the same value. -/
theorem parse_schemaText {type : Option PrimitiveType} {text : String} {value : Value}
    (read : parse text type = .ok value) :
    parse (value.schemaText type) type = .ok value.canonical := by
  cases type with
  | none =>
      cases read
      rw [parse, schemaText, Text.ofUtf8Lossy_utf8Bytes]
      rfl
  | some known =>
      rw [parse] at read
      split at read
      · rename_i found isFound
        cases read
        rw [parse]
        simp only [parseAs?_schemaText isFound]
      · cases read

/-- The words that are not numbers are written alike. -/
theorem schemaText_canonical (value : Value) (type : Option PrimitiveType) :
    value.canonical.schemaText type = value.schemaText type := by
  cases value with
  | float word =>
      simp only [canonical, schemaText, display, Binary64.canonical]
      split
      · rename_i notNumber
        rw [Binary64.isNaN, decide_eq_true_eq] at notNumber
        rw [Binary64.text, Binary64.text, Binary64.signedText, Binary64.signedText,
          if_pos notNumber, if_pos (by decide)]
      · rfl
  | int | uint | bytes => rfl

end Value

end WireSchema
