/-
Module: WireSchema.Proofs.WireReading
Purpose: `BytesAt` says that some bytes stand at a position of a buffer, whatever stands before and
  behind them.  Scalars, arrays, numbers of two bytes and variable data are read back from there.
Main exports: BytesAt, Readable, EncodingPair.IsDimensions, EncodingPair.IsVarData
-/
import WireSchema.Proofs.ValueTree

namespace WireSchema

/-- Some bytes stand at a position of a buffer. -/
def BytesAt (buffer : Buffer) (position : Nat) (bytes : List UInt8) : Prop :=
  ∃ before after, buffer.toList = before ++ (bytes ++ after) ∧ before.length = position

namespace BytesAt

variable {buffer : Buffer} {position : Nat} {first second : List UInt8}

theorem left (both : BytesAt buffer position (first ++ second)) :
    BytesAt buffer position first := by
  obtain ⟨before, after, whole, length⟩ := both
  exact ⟨before, second ++ after, by rw [whole, List.append_assoc], length⟩

theorem right (both : BytesAt buffer position (first ++ second)) :
    BytesAt buffer (position + first.length) second := by
  obtain ⟨before, after, whole, length⟩ := both
  refine ⟨before ++ first, after, ?_, by rw [List.length_append, length]⟩
  rw [whole, List.append_assoc, List.append_assoc]

theorem length_le (stands : BytesAt buffer position first) :
    position + first.length ≤ buffer.size := by
  obtain ⟨before, after, whole, length⟩ := stands
  rw [← Array.length_toList, whole, List.length_append, List.length_append]
  omega

/-- A part of the bytes is read by its place among them. -/
theorem slice_eq (stands : BytesAt buffer position first) (start length : Nat)
    (inside : start + length ≤ first.length) :
    slice buffer (position + start) length = .ok ((first.drop start).take length) := by
  have fits := stands.length_le
  obtain ⟨before, after, whole, rfl⟩ := stands
  have part : (buffer.extract (before.length + start) (before.length + start + length)).toList =
      (first.drop start).take length := by
    rw [Array.toList_extract, List.extract_eq_take_drop, whole, Nat.add_sub_cancel_left,
      List.drop_length_add_append, List.drop_append_of_le_length (by omega),
      List.take_append_of_le_length (by rw [List.length_drop]; omega)]
  rw [slice, if_pos (by omega), part]

theorem slice_self (stands : BytesAt buffer position first) :
    slice buffer position first.length = .ok first := by
  have whole := stands.slice_eq 0 first.length (by omega)
  simpa using whole

end BytesAt

section

variable {buffer : Buffer} {position : Nat} {bytes : List UInt8}

theorem bytesAt_iff : BytesAt buffer position bytes ↔
    position + bytes.length ≤ buffer.size ∧
      (buffer.extract position (position + bytes.length)).toList = bytes := by
  rw [Array.toList_extract, List.extract_eq_take_drop, Nat.add_sub_cancel_left]
  constructor
  · intro stands
    refine ⟨stands.length_le, ?_⟩
    obtain ⟨before, after, whole, rfl⟩ := stands
    rw [whole, List.drop_left, List.take_left]
  · rintro ⟨inside, isPart⟩
    refine ⟨buffer.toList.take position, (buffer.toList.drop position).drop bytes.length, ?_, ?_⟩
    · have behind : bytes ++ (buffer.toList.drop position).drop bytes.length =
          buffer.toList.drop position :=
        (congrArg (· ++ _) isPart.symm).trans (List.take_append_drop _ _)
      rw [behind, List.take_append_drop]
    · rw [List.length_take, Array.length_toList]
      omega

/-- Some bytes stand everywhere in a buffer. -/
theorem exists_bytesAt {length : Nat} (inside : position + length ≤ buffer.size) :
    ∃ bytes : List UInt8, bytes.length = length ∧ BytesAt buffer position bytes := by
  have sameLength : (buffer.extract position (position + length)).toList.length = length := by
    rw [Array.length_toList, Array.size_extract]
    omega
  exact ⟨_, sameLength, bytesAt_iff.mpr ⟨by rwa [sameLength], by rw [sameLength]⟩⟩

end

/-! ### Values of a block -/

theorem advance_of_le {position distance : Nat} (small : position + distance ≤ lastPosition) :
    advance position distance = position + distance :=
  Nat.min_eq_left small

/-- Positions that are too large stay too large. -/
theorem advance_advance (position first second : Nat) :
    advance (advance position first) second = advance position (first + second) := by
  rw [advance, advance, advance]
  omega

theorem positionOf_eq {token : Token} (fixed : 0 ≤ token.offset) (base : Nat) :
    positionOf base token = .ok (advance base token.offset.toNatClampNeg) := by
  have notNegative : ¬ token.offset < 0 := Int32.not_lt.mpr fixed
  rw [positionOf, fixedOffset, if_neg notNegative]
  rfl

variable {buffer : Buffer} {actingVersion : Int32} {position : Nat} {block : List UInt8}

theorem readPrimitive_bytesAt (stands : BytesAt buffer position block) (type : PrimitiveType)
    (order : ByteOrder) {start : Nat} (inside : start + type.size ≤ block.length) :
    readPrimitive buffer (position + start) type order =
      .ok (valueOfWord type
        (ofLittleEndian (ordered order ((block.drop start).take type.size)))) := by
  rw [readPrimitive, stands.slice_eq start type.size inside]
  rfl

/-- Scalars that follow each other inside a block are read one after another. -/
theorem readElements_bytesAt (stands : BytesAt buffer position block)
    (small : buffer.size ≤ lastPosition) (type : PrimitiveType) (order : ByteOrder) (count : Nat) :
    ∀ (earlier : List Value) (start : Nat), start + count * type.size ≤ block.length →
      readElements ⟨buffer, actingVersion⟩ type order earlier (position + start) count =
        .ok (earlier.reverse ++ elementsIn type order block count start) := by
  induction count with
  | zero =>
      intro earlier start _
      rw [readElements, elementsIn, List.append_nil]
  | succ count ih =>
      intro earlier start inside
      rw [Nat.succ_mul] at inside
      have fits := stands.length_le
      have next : advance (position + start) type.size = position + (start + type.size) := by
        rw [advance_of_le (by omega)]
        omega
      rw [readElements, readPrimitive_bytesAt stands type order (by omega)]
      simp only [next]
      rw [ih _ (start + type.size) (by omega), elementsIn, List.reverse_cons, List.append_assoc,
        List.singleton_append]

/-- What a type token of a field needs to be read from a block of a length, at a base within it:
it is known to the producer and has a primitive type, and it is constant or lies inside. -/
structure Readable (actingVersion : Int32) (length : Nat) (field typeToken : Token)
    (base : Nat) : Prop where
  fieldKnown : field.version ≤ actingVersion
  tokenKnown : typeToken.version ≤ actingVersion
  typed : typeToken.encoding.primitiveType.isSome
  inside : (constantOf? field typeToken).isSome ∨
    (0 ≤ typeToken.offset ∧ 0 < typeToken.encodedLength ∧
      base + typeToken.offset.toNatClampNeg + typeToken.encodedLength.toNatClampNeg ≤ length)

theorem max_le_of_le {first second bound : Int32} (one : first ≤ bound) (other : second ≤ bound) :
    max first second ≤ bound := by
  by_cases order : first ≤ second
  · rwa [show max first second = second from if_pos order]
  · rwa [show max first second = first from if_neg order]

/-- A value is read from the block around it. -/
theorem readValue_bytesAt (stands : BytesAt buffer position block)
    (small : buffer.size ≤ lastPosition) {field typeToken : Token} {base : Nat}
    (readable : Readable actingVersion block.length field typeToken base) :
    readValue ⟨buffer, actingVersion⟩ field typeToken (advance position base) =
      .ok (valueIn block field typeToken base) := by
  obtain ⟨type, isType⟩ := Option.isSome_iff_exists.mp readable.typed
  have known : ¬ actingVersion < max field.version typeToken.version :=
    Int32.not_lt.mpr (max_le_of_le readable.fieldKnown readable.tokenKnown)
  have inside := readable.inside
  rw [readValue, valueIn]
  cases isConstant : constantOf? field typeToken with
  | some value => rfl
  | none =>
      rw [isConstant] at inside
      obtain impossible | ⟨fixed, positive, fits⟩ := inside
      · cases impossible
      have bound := stands.length_le
      have start : positionOf (advance position base) typeToken =
          .ok (position + (base + typeToken.offset.toNatClampNeg)) := by
        rw [positionOf_eq fixed, advance_advance, advance_of_le (by omega)]
      have elements : typeToken.arrayLength * type.size ≤
          typeToken.encodedLength.toNatClampNeg := by
        rw [Token.arrayLength, isType]
        simp only [if_pos positive]
        exact Nat.div_mul_le_self _ _
      simp only [isType, if_neg known, start, Option.getD_some]
      by_cases isText : type = .char ∧ 1 < typeToken.arrayLength
      · have size : type.size = 1 := by
          rw [isText.1]
          rfl
        rw [size, Nat.mul_one] at elements
        simp only [if_pos isText, bind, Except.bind,
          stands.slice_eq (base + typeToken.offset.toNatClampNeg) typeToken.arrayLength
            (by omega)]
      · simp only [if_neg isText, bind, Except.bind,
          readElements_bytesAt stands small type typeToken.encoding.byteOrder
            typeToken.arrayLength [] (base + typeToken.offset.toNatClampNeg)
            (Nat.le_trans (Nat.add_le_add_left elements _) fits), List.reverse_nil, List.nil_append]

/-! ### Numbers of two bytes -/

/-- The token describes a number of two bytes, the least significant one first, at an offset. -/
structure IsNumber (token : Token) (offset : Int32) : Prop where
  type : token.encoding.primitiveType = some .uint16
  order : token.encoding.byteOrder = .littleEndian
  placed : token.offset = offset

/-- A number of two bytes is read back. -/
theorem readUnsigned_bytesAt {number : Nat} (fits : number < UInt16.size)
    (stands : BytesAt buffer position (littleEndian 2 number)) {token : Token} {offset : Int32}
    (isNumber : IsNumber token offset) :
    readUnsigned buffer position token = .ok (UInt64.ofNat number) := by
  have read : slice buffer position 2 = .ok (littleEndian 2 number) := by
    have whole := stands.slice_self
    rwa [length_littleEndian] at whole
  have value : ofLittleEndian (littleEndian 2 number) = number := by
    rw [ofLittleEndian_littleEndian]
    exact Nat.mod_eq_of_lt fits
  rw [readUnsigned, isNumber.type]
  simp [PrimitiveType.isFloat, readPrimitive, PrimitiveType.size, read, isNumber.order, ordered,
    bind, Except.bind, value, valueOfWord, Value.toUInt64?]

theorem toNat_ofNat_of_lt {number : Nat} (fits : number < UInt16.size) :
    (UInt64.ofNat number).toNat = number := by
  rw [UInt64.toNat_ofNat']
  apply Nat.mod_eq_of_lt
  exact Nat.lt_trans fits (by decide)

/-- The layout of variable data: a length of two bytes, and the content behind it. -/
structure EncodingPair.IsVarData (tree : EncodingPair) : Prop where
  first : IsNumber tree.first 0
  second : tree.second.1.offset = 2

/-- Variable data are read back, and the position behind them is that of the next piece. -/
theorem VarDataTree.walk_bytesAt {content : List UInt8} (fits : content.length < UInt16.size)
    (stands : BytesAt buffer position (varDataBytes content)) (small : buffer.size ≤ lastPosition)
    {tree : VarDataTree} (known : tree.opening.1.version ≤ actingVersion)
    (layout : tree.layout.IsVarData) :
    tree.walk ⟨buffer, actingVersion⟩ position =
      ⟨[.varData tree.opening content tree.layout.second],
        .ok (position + (varDataBytes content).length)⟩ := by
  have bound := stands.length_le
  rw [varDataBytes, List.length_append, length_littleEndian] at bound
  have lengthAt : positionOf position tree.layout.first.1 = .ok position := by
    rw [positionOf_eq (by rw [layout.first.placed]; decide), layout.first.placed,
      advance_of_le (by simp; omega)]
    rfl
  have contentAt : positionOf position tree.layout.second.1 = .ok (position + 2) := by
    rw [positionOf_eq (by rw [layout.second]; decide), layout.second,
      show Int32.toNatClampNeg 2 = 2 from rfl, advance_of_le (by omega)]
  have length := readUnsigned_bytesAt fits stands.left layout.first
  have behind := stands.right.slice_self
  rw [length_littleEndian] at behind
  have result : walkVarData.readVarData ⟨buffer, actingVersion⟩ position tree.opening
      tree.layout.first tree.layout.second = .ok (content, position + 2 + content.length) := by
    rw [walkVarData.readVarData, if_pos known]
    simp only [lengthAt, length, contentAt, toNat_ofNat_of_lt fits, behind, bind, Except.bind]
  rw [VarDataTree.walk, result, varDataBytes, List.length_append, length_littleEndian,
    ← Nat.add_assoc]
  rfl

/-- The dimensions of a group: two numbers of two bytes, the length of an entry first. -/
structure EncodingPair.IsDimensions (tree : EncodingPair) : Prop where
  first : IsNumber tree.first 0
  second : IsNumber tree.second 2
  length : tree.opening.1.encodedLength = 4

/-- The dimensions of a group are read back. -/
theorem readGroupSize_bytesAt {blockLength : UInt16} {count : Nat} (fits : count < UInt16.size)
    {entries : List UInt8} (room : count * blockLength.toNat ≤ entries.length)
    (stands : BytesAt buffer position
      (groupHeaderBytes blockLength (UInt16.ofNat count) ++ entries))
    (small : buffer.size ≤ lastPosition) {opening : Token}
    (known : opening.version ≤ actingVersion) {dimensions : EncodingPair}
    (layout : dimensions.IsDimensions) :
    readGroupSize ⟨buffer, actingVersion⟩ opening dimensions.dimensions position =
      .ok ⟨blockLength.toNat, count, position + 4⟩ := by
  have bound := stands.length_le
  rw [List.length_append, groupHeaderBytes, List.length_append, length_littleEndian,
    length_littleEndian] at bound
  have firstAt : positionOf position dimensions.first.1 = .ok position := by
    rw [positionOf_eq (by rw [layout.first.placed]; decide), layout.first.placed,
      advance_of_le (by simp; omega)]
    rfl
  have secondAt : positionOf position dimensions.second.1 = .ok (position + 2) := by
    rw [positionOf_eq (by rw [layout.second.placed]; decide), layout.second.placed,
      show Int32.toNatClampNeg 2 = 2 from rfl, advance_of_le (by omega)]
  have first := readUnsigned_bytesAt blockLength.toNat_lt stands.left.left layout.first
  have countNumber : (UInt16.ofNat count).toNat = count := by
    rw [UInt16.toNat_ofNat']
    exact Nat.mod_eq_of_lt fits
  have second := readUnsigned_bytesAt (by rw [countNumber]; exact fits) stands.left.right
    layout.second
  rw [length_littleEndian, countNumber] at second
  have length : fixedLength dimensions.opening.1 = .ok 4 := by
    rw [fixedLength, layout.length]
    rfl
  have start : advance position 4 = position + 4 := advance_of_le (by omega)
  have fitsBuffer : ¬ buffer.size - (position + 4) <
      min (count * blockLength.toNat) lastPosition := by
    omega
  rw [readGroupSize, if_pos known]
  simp only [EncodingPair.dimensions, firstAt, first, secondAt, second, length, start, bind,
    Except.bind, toNat_ofNat_of_lt blockLength.toNat_lt, toNat_ofNat_of_lt fits,
    if_neg fitsBuffer]

end WireSchema
