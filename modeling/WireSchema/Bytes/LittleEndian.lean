/-
Module: WireSchema.Bytes.LittleEndian
Purpose: Numbers as bytes.  A number of a fixed width is sent byte by byte, the least significant
  one first, and what does not fit into the width is dropped.  The pieces of a message that a sender
  writes by hand are such numbers: its header, the dimensions of a group, the length of variable
  data.
Main exports: littleEndian, ofLittleEndian, headerBytes, groupHeaderBytes, varDataBytes
-/

namespace WireSchema

/-- The number of words of a width in bytes. -/
def wordCount : (width : Nat) → Nat
  | 0 => 1
  | width + 1 => 256 * wordCount width

/-- The bytes of a number, the least significant first. -/
def littleEndian : (width : Nat) → (number : Nat) → List UInt8
  | 0, _ => []
  | width + 1, number => UInt8.ofNat number :: littleEndian width (number / 256)

/-- The number that bytes spell, the least significant first. -/
def ofLittleEndian : List UInt8 → Nat
  | [] => 0
  | byte :: rest => byte.toNat + 256 * ofLittleEndian rest

@[simp] theorem length_littleEndian (width number : Nat) :
    (littleEndian width number).length = width := by
  induction width generalizing number with
  | zero => rfl
  | succ width ih => simp [littleEndian, ih]

theorem ofLittleEndian_littleEndian (width number : Nat) :
    ofLittleEndian (littleEndian width number) = number % wordCount width := by
  induction width generalizing number with
  | zero => simp [littleEndian, ofLittleEndian, wordCount, Nat.mod_one]
  | succ width ih =>
    rw [littleEndian, ofLittleEndian, ih, UInt8.toNat_ofNat', wordCount, Nat.mod_mul]

theorem littleEndian_ofLittleEndian (bytes : List UInt8) :
    littleEndian bytes.length (ofLittleEndian bytes) = bytes := by
  induction bytes with
  | nil => rfl
  | cons byte rest ih =>
    have small := byte.toNat_lt
    have head : UInt8.ofNat (byte.toNat + 256 * ofLittleEndian rest) = byte := by
      apply UInt8.toNat_inj.1
      simp only [UInt8.toNat_ofNat']
      omega
    have tail : (byte.toNat + 256 * ofLittleEndian rest) / 256 = ofLittleEndian rest := by
      omega
    simp only [ofLittleEndian, List.length_cons, littleEndian, head, tail, ih]

theorem ofLittleEndian_lt (bytes : List UInt8) : ofLittleEndian bytes < wordCount bytes.length := by
  induction bytes with
  | nil => simp [ofLittleEndian, wordCount]
  | cons byte rest ih =>
    have small := byte.toNat_lt
    simp only [ofLittleEndian, List.length_cons, wordCount]
    omega

/-! ### The pieces of a message

A message is the pieces put one after another.
-/

/-- The bytes of the header of a message. -/
def headerBytes (blockLength templateId schemaId version : UInt16) : List UInt8 :=
  littleEndian 2 blockLength.toNat ++ littleEndian 2 templateId.toNat ++
    littleEndian 2 schemaId.toNat ++ littleEndian 2 version.toNat

/-- The bytes of the dimensions of a group. -/
def groupHeaderBytes (blockLength numInGroup : UInt16) : List UInt8 :=
  littleEndian 2 blockLength.toNat ++ littleEndian 2 numInGroup.toNat

/-- The bytes of variable data behind their length, of which two bytes are kept. -/
def varDataBytes (content : List UInt8) : List UInt8 :=
  littleEndian 2 content.length ++ content

end WireSchema
