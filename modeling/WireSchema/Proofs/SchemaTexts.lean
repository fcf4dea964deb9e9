/-
Module: WireSchema.Proofs.SchemaTexts
Purpose: The values that a schema and its messages may have for a type are those that a text spells
  and those that the bytes of a scalar stand for (`Value.Occurs`).  Bytes stand for nothing that no
  text spells, but for the words that are not numbers, and so every such value is spelled again by
  the text that a schema writes for it (`Value.Occurs.read_again`).
Main exports: Value.Occurs, Value.Occurs.read_again
-/
import WireSchema.Proofs.ValueReading
import WireSchema.Proofs.WrittenScalars

namespace WireSchema

/-!
A character has two forms, its code if it is alone and among the first 256, and its bytes otherwise.
The text tells which of the two was written.
-/

namespace Value

/-- A value that a text spells for a type, or without one, or that was read from bytes for it. -/
inductive Occurs : Option PrimitiveType → Value → Prop where
  | spelled {type : Option PrimitiveType} {value : Value} (text : String)
      (isValue : parse text type = .ok value) : Occurs type value
  | read {type : PrimitiveType} {value : Value} (buffer : Buffer) (index : Nat) (order : ByteOrder)
      (isValue : readPrimitive buffer index type order = .ok value) : Occurs (some type) value

/-- Only the words that are not numbers are replaced. -/
theorem canonical_of_number {value : Value}
    (number : ∀ word, value = .float word → word.isNaN = false) : value.canonical = value := by
  cases value with
  | float word => rw [canonical, Binary64.canonical, number word rfl, if_neg Bool.false_ne_true]
  | int | uint | bytes => rfl

/-- A value of another kind is what it is replaced by. -/
theorem eq_of_canonical_eq {value other : Value} (same : value.canonical = other)
    (noFloat : ∀ word, other ≠ .float word) : value = other := by
  cases value with
  | float word => exact absurd same.symm (noFloat _)
  | int | uint | bytes => exact same

/-! ### Characters -/

theorem toList_characterText {code : UInt64} (small : code ≤ 0xff) :
    ∃ character : Char, (characterText code).toList = [character] ∧
      character.toNat = code.toNat := by
  have isSmall : code.toNat ≤ 0xff := UInt64.le_iff_toNat_le.mp small
  have valid : code.toNat.isValidChar := .inl (by omega)
  refine ⟨Char.ofNat code.toNat, ?_, ?_⟩
  · rw [characterText, Char.toString_eq_singleton, String.toList_singleton]
  · rw [Char.ofNat, dif_pos valid]
    rfl

/-- A lone character of the first 256 is read as its code. -/
theorem ofCharacters_characterText {code : UInt64} (small : code ≤ 0xff) :
    ofCharacters (characterText code) = .uint code := by
  have isSmall : code.toNat ≤ 0xff := UInt64.le_iff_toNat_le.mp small
  obtain ⟨character, alone, isCode⟩ := toList_characterText small
  rw [ofCharacters, alone]
  simp only [isCode, if_pos isSmall, UInt64.ofNat_toNat]

/-- What a text of characters is read as. -/
theorem ofCharacters_eq (text : String) :
    (∃ code, code ≤ 0xff ∧ ofCharacters text = .uint code) ∨
      ofCharacters text = .bytes (Text.utf8Bytes text) := by
  unfold ofCharacters
  split
  · rename_i character _
    split
    · rename_i small
      refine .inl ⟨_, ?_, rfl⟩
      rw [UInt64.le_iff_toNat_le, UInt64.toNat_ofNat']
      exact Nat.le_trans (Nat.mod_le _ _) small
    · exact .inr rfl
  · exact .inr rfl

/-- A text of characters is the character of a code and read as that code, or it is another text
and read as its bytes. -/
theorem ofCharacters_cases (text : String) :
    (∃ code, code ≤ 0xff ∧ text = characterText code ∧ ofCharacters text = .uint code) ∨
      (∀ code, code ≤ 0xff → text ≠ characterText code) ∧
        ofCharacters text = .bytes (Text.utf8Bytes text) := by
  by_cases isCharacter : ∃ code, code ≤ 0xff ∧ text = characterText code
  · obtain ⟨code, small, rfl⟩ := isCharacter
    exact .inl ⟨code, small, rfl, ofCharacters_characterText small⟩
  · refine .inr ⟨fun code small isText => isCharacter ⟨code, small, isText⟩, ?_⟩
    rcases ofCharacters_eq text with ⟨code, small, isCode⟩ | isBytes
    · have written := schemaText_ofCharacters text
      rw [isCode, schemaText, if_pos ⟨rfl, small⟩] at written
      exact absurd ⟨code, small, written.symm⟩ isCharacter
    · exact isBytes

/-! ### Values of every kind -/

/-- The code of a character that was read is one of the first 256. -/
theorem valueOfWord_char {word : Nat} (inWidth : word < wordCount PrimitiveType.char.size) :
    ∃ code, code ≤ 0xff ∧ valueOfWord .char word = .uint code := by
  refine ⟨UInt64.ofNat word, ?_, rfl⟩
  have small : word < 256 := inWidth
  rw [UInt64.le_iff_toNat_le, UInt64.toNat_ofNat']
  exact Nat.le_trans (Nat.mod_le _ _) (Nat.le_of_lt_succ small)

/-- What bytes stand for, a text spells, but for the words that are not numbers. -/
theorem exists_spelled_of_word (type : PrimitiveType) {word : Nat}
    (inWidth : word < wordCount type.size) :
    ∃ text, parseAs? type text = some (valueOfWord type word).canonical := by
  by_cases isChar : type = .char
  · subst isChar
    obtain ⟨code, small, isCode⟩ := valueOfWord_char inWidth
    rw [isCode]
    exact ⟨_, congrArg some (ofCharacters_characterText small)⟩
  · refine ⟨(valueOfWord type word).display, ?_⟩
    cases type with
    | char => exact absurd rfl isChar
    | int8 | int16 | int32 | int64 =>
        simp only [parseAs?, valueOfWord, display, Reading.int64?_toString, Option.map_some,
          canonical]
    | uint8 | uint16 | uint32 | uint64 =>
        simp only [parseAs?, valueOfWord, display, Reading.uint64?_toString, Option.map_some,
          canonical]
    | float | double =>
        simp only [parseAs?, valueOfWord, display, Reading.binary64?_text, Option.map_some,
          canonical]

namespace Occurs

variable {type : Option PrimitiveType} {value other : Value}

/-- There is a text that spells the value. -/
theorem exists_spelled (occurs : Occurs type value) :
    ∃ text, parse text type = .ok value.canonical := by
  cases occurs with
  | spelled text isValue =>
      exact ⟨_, parse_schemaText isValue⟩
  | @read type _ buffer index order isValue =>
      obtain ⟨_, _, _, inWidth, rfl⟩ := exists_window_of_read isValue
      obtain ⟨text, isSpelled⟩ := exists_spelled_of_word type inWidth
      refine ⟨text, ?_⟩
      rw [parse]
      simp only [isSpelled]

/-- The text that a schema writes for the value spells it. -/
theorem parse_written (occurs : Occurs type value) :
    parse (value.schemaText type) type = .ok value.canonical := by
  obtain ⟨text, isSpelled⟩ := occurs.exists_spelled
  have again := parse_schemaText isSpelled
  rwa [schemaText_canonical, canonical_canonical] at again

/-- Values that are written alike are alike. -/
theorem canonical_eq (occurs : Occurs type value) (occursOther : Occurs type other)
    (sameText : other.schemaText type = value.schemaText type) :
    other.canonical = value.canonical := by
  have read := occursOther.parse_written
  rw [sameText, occurs.parse_written] at read
  exact (Except.ok.inj read).symm

/-- A value of characters is a code, written as the character of that code, or it is the bytes of a
text that is no such character, written as that text. -/
theorem character (occurs : Occurs (some .char) value) :
    (∃ code, code ≤ 0xff ∧ value = .uint code ∧
        value.schemaText (some .char) = characterText code) ∨
      ∃ text, (∀ code, code ≤ 0xff → text ≠ characterText code) ∧
        value = .bytes (Text.utf8Bytes text) ∧ value.schemaText (some .char) = text := by
  obtain ⟨text, isSpelled⟩ := occurs.exists_spelled
  have isValue : ofCharacters text = value.canonical := Except.ok.inj isSpelled
  have written := schemaText_ofCharacters text
  rw [isValue, schemaText_canonical] at written
  rcases ofCharacters_cases text with ⟨code, small, isText, isCode⟩ | ⟨noCode, isBytes⟩
  · refine .inl ⟨code, small, ?_, written.trans isText⟩
    rw [isCode] at isValue
    exact eq_of_canonical_eq isValue.symm nofun
  · refine .inr ⟨text, noCode, ?_, written⟩
    rw [isBytes] at isValue
    exact eq_of_canonical_eq isValue.symm nofun

/-- A value that a text spells, or that was read from bytes, is read again from the text that a
schema writes for it; only the words that are not numbers are not told apart.  So values that are
written alike are alike.  In particular a character that is held by its code and a text that is held
by its bytes stay what they are. -/
theorem read_again (occurs : Occurs type value) :
    parse (value.schemaText type) type = .ok value.canonical ∧
      ((∀ word, value = .float word → word.isNaN = false) → value.canonical = value) ∧
      (∀ other, Occurs type other → other.schemaText type = value.schemaText type →
        other.canonical = value.canonical) ∧
      (type = some .char →
        (∃ code, code ≤ 0xff ∧ value = .uint code ∧ value.schemaText type = characterText code) ∨
          ∃ text, (∀ code, code ≤ 0xff → text ≠ characterText code) ∧
            value = .bytes (Text.utf8Bytes text) ∧ value.schemaText type = text) := by
  refine ⟨occurs.parse_written, canonical_of_number, fun other => occurs.canonical_eq, ?_⟩
  rintro rfl
  exact occurs.character

/-- A character for its code, and two characters, which are read as bytes. -/
theorem read_again_characters :
    let code : Value := .uint 0xe9
    let pair : Value := .bytes (Text.utf8Bytes "éé")
    Occurs (some .char) code ∧ Occurs (some .char) pair ∧
      parse (code.schemaText (some .char)) (some .char) = .ok code ∧
      parse (pair.schemaText (some .char)) (some .char) = .ok pair ∧
      pair.schemaText (some .char) ≠ code.schemaText (some .char) := by
  intro code pair
  have occursCode : Occurs (some .char) code := .read #[0xe9] 0 .littleEndian rfl
  have occursPair : Occurs (some .char) pair := .spelled "éé" rfl
  obtain ⟨codeAgain, _, alike, _⟩ := occursCode.read_again
  obtain ⟨pairAgain, _⟩ := occursPair.read_again
  refine ⟨occursCode, occursPair, codeAgain, pairAgain, fun sameText => ?_⟩
  cases alike pair occursPair sameText

end Occurs

end Value

end WireSchema
