/-
Module: WireSchema.Proofs.WrittenScalars
Purpose: A scalar is written by a program that changes the buffer: the bytes are stored one after
  another, the least significant first, and for the other order the window that they fill is then
  turned round where it stands.  What such a program has changed stays when it breaks off.
Main exports: Writing, Writing.scalar, Writing.scalar_window
-/
import Mathlib.Algebra.Divisibility.Basic
import Mathlib.Algebra.Group.Nat.Defs
import Mathlib.Algebra.Ring.Int.Defs
import WireSchema.Proofs.GuardedReading
import WireSchema.Proofs.WireReading

namespace WireSchema

/-!
It comes to `writePrimitive`, which makes a new buffer out of the old one.  An integer that is
written changes nothing but its window and is read back as the one integer of the type that agrees
with it in the width of the type; whatever cannot be written changes nothing; and a value that was
read is written back without a change (`Writing.scalar_window`).
-/

/-! ### Integers in a width -/

theorem wordCount_eq_two_pow (width : Nat) : wordCount width = 2 ^ (8 * width) := by
  induction width with
  | zero => rfl
  | succ width ih => rw [wordCount, ih, Nat.mul_succ, Nat.pow_add, Nat.mul_comm]

/-- Only what fits into a width has a part in its bytes. -/
theorem littleEndian_mod (width number : Nat) :
    littleEndian width (number % wordCount width) = littleEndian width number := by
  have again := littleEndian_ofLittleEndian (littleEndian width number)
  rwa [length_littleEndian, ofLittleEndian_littleEndian] at again

/-- The number that an integer stands for, if the value is one. -/
def Value.number? : Value → Option Int
  | .int number => some number.toInt
  | .uint number => some number.toNat
  | .float _ | .bytes _ => none

namespace PrimitiveType

/-- Whether a value is an integer of a type: with a sign where the type has one, and in the range
that the width leaves. -/
def Holds (type : PrimitiveType) : Value → Prop
  | .int number => type.isSigned = true ∧
      -2 ^ (8 * type.size - 1) ≤ number.toInt ∧ number.toInt < 2 ^ (8 * type.size - 1)
  | .uint number => type.isSigned = false ∧ number.toNat < 2 ^ (8 * type.size)
  | .float _ | .bytes _ => False

/-- Whether a value is an integer of a type that agrees with a number in the width of the type. -/
def Keeps (type : PrimitiveType) (number : Int) (value : Value) : Prop :=
  type.Holds value ∧ ∃ kept, value.number? = some kept ∧
    kept % 2 ^ (8 * type.size) = number % 2 ^ (8 * type.size)

variable {type : PrimitiveType}

/-- The greatest number without a sign is twice as large as with one, and is a word. -/
theorem exists_half (type : PrimitiveType) :
    ∃ half : Nat, 2 ^ (8 * type.size - 1) = half ∧ 2 ^ (8 * type.size) = 2 * half ∧
      half ≤ 2 ^ 63 := by
  refine ⟨2 ^ (8 * type.size - 1), rfl, ?_, ?_⟩
  · cases type <;> rfl
  · cases type <;> decide

/-- A number with a sign is settled by what is left of it in a width that holds it. -/
theorem eq_of_signed_range {half : Nat} {first second : Int}
    (one : -half ≤ first ∧ first < half) (other : -half ≤ second ∧ second < half)
    (same : first % (2 * half : Nat) = second % (2 * half : Nat)) : first = second := by
  have settled {number : Int} (range : -half ≤ number ∧ number < half) :
      (number % (2 * half : Nat)).bmod (2 * half) = number := by
    rw [Int.emod_bmod]
    exact Int.bmod_eq_of_le (by omega) (by omega)
  rw [← settled one, same, settled other]

/-- There is one integer of a type at most that agrees with a number. -/
theorem Keeps.unique {number : Int} {first second : Value} (one : type.Keeps number first)
    (other : type.Keeps number second) : first = second := by
  obtain ⟨half, isHalf, isWhole, _⟩ := type.exists_half
  obtain ⟨holds, kept, isKept, same⟩ := one
  obtain ⟨holdsOther, keptOther, isKeptOther, sameOther⟩ := other
  have agree := same.trans sameOther.symm
  have whole : (2 : Int) ^ (8 * type.size) = (2 * half : Nat) := by exact_mod_cast isWhole
  have bound : (2 : Int) ^ (8 * type.size - 1) = half := by exact_mod_cast isHalf
  rw [whole] at agree
  cases first with
  | int firstNumber =>
      cases isKept
      cases second with
      | int secondNumber =>
          cases isKeptOther
          rw [Holds, bound] at holds holdsOther
          rw [Int64.toInt_inj.mp (eq_of_signed_range holds.2 holdsOther.2 agree)]
      | uint => exact absurd (holds.1.symm.trans holdsOther.1) (by decide)
      | float | bytes => cases isKeptOther
  | uint firstNumber =>
      cases isKept
      cases second with
      | int => exact absurd (holds.1.symm.trans holdsOther.1) (by decide)
      | uint secondNumber =>
          cases isKeptOther
          rw [Holds, isWhole] at holds holdsOther
          have small := holds.2
          have smallOther := holdsOther.2
          rw [Int.emod_eq_of_lt (by omega) (by omega), Int.emod_eq_of_lt (by omega) (by omega),
            Int.natCast_inj] at agree
          rw [UInt64.toNat_inj.mp agree]
      | float | bytes => cases isKeptOther
  | float | bytes => cases isKept

/-- A number may be replaced by another one that has the same part in the width of the type. -/
theorem Keeps.congr {number other : Int} {value : Value} (keeps : type.Keeps number value)
    (same : number % 2 ^ (8 * type.size) = other % 2 ^ (8 * type.size)) :
    type.Keeps other value := by
  obtain ⟨holds, kept, isKept, agrees⟩ := keeps
  exact ⟨holds, kept, isKept, agrees.trans same⟩

end PrimitiveType

theorem valueOfWord_of_signed {type : PrimitiveType} (signed : type.isSigned = true) (word : Nat) :
    valueOfWord type word = .int (Int64.ofInt (Int.bmod word (wordCount type.size))) := by
  cases type <;> first | rfl | cases signed

theorem valueOfWord_of_unsigned {type : PrimitiveType} (whole : type.isFloat = false)
    (unsigned : type.isSigned = false) (word : Nat) :
    valueOfWord type word = .uint (UInt64.ofNat word) := by
  cases type <;> simp_all [PrimitiveType.isFloat, PrimitiveType.isSigned, valueOfWord]

/-- A word of the width of a type is read as the integer of the type that agrees with it. -/
theorem valueOfWord_keeps {type : PrimitiveType} (whole : type.isFloat = false) {word : Nat}
    (inWidth : word < wordCount type.size) : type.Keeps word (valueOfWord type word) := by
  obtain ⟨half, isHalf, isWhole, small⟩ := type.exists_half
  have wholeInt : (2 : Int) ^ (8 * type.size) = (2 * half : Nat) := by exact_mod_cast isWhole
  have boundInt : (2 : Int) ^ (8 * type.size - 1) = half := by exact_mod_cast isHalf
  rw [wordCount_eq_two_pow, isWhole] at inWidth
  cases signed : type.isSigned with
  | true =>
      have least := Int.le_bmod (x := word) (m := 2 * half) (by omega)
      have greatest := Int.bmod_lt (x := word) (m := 2 * half) (by omega)
      have number : (Int64.ofInt (Int.bmod word (2 * half))).toInt = Int.bmod word (2 * half) :=
        Int64.toInt_ofInt_of_le (by omega) (by omega)
      rw [valueOfWord_of_signed signed, wordCount_eq_two_pow, isWhole]
      refine ⟨⟨signed, ?_⟩, _, rfl, ?_⟩
      · rw [number, boundInt]
        omega
      · rw [number, wholeInt, Int.bmod_emod]
  | false =>
      have number : (UInt64.ofNat word).toNat = word := by
        rw [UInt64.toNat_ofNat']
        exact Nat.mod_eq_of_lt (by omega)
      rw [valueOfWord_of_unsigned whole signed]
      refine ⟨⟨signed, ?_⟩, _, rfl, ?_⟩
      · rw [number, isWhole]
        exact inWidth
      · rw [number]

theorem wordOfValue?_of_whole {type : PrimitiveType} (whole : type.isFloat = false)
    (value : Value) : wordOfValue? type value = value.toUInt64?.map UInt64.toNat := by
  cases type <;> first | rfl | cases whole

/-- The bits of a number with a sign, taken as a number without one. -/
theorem toNat_toUInt64_emod (number : Int64) :
    (number.toUInt64.toNat : Int) % 2 ^ 64 = number.toInt % 2 ^ 64 := by
  have signed : number.toInt = (number.toUInt64.toNat : Int).bmod (2 ^ 64) :=
    BitVec.toInt_eq_toNat_bmod number.toBitVec
  rw [signed]
  exact Int.bmod_emod.symm

/-- An integer becomes a word that agrees with it in the width of a type. -/
theorem exists_wordOfValue {type : PrimitiveType} (whole : type.isFloat = false) {value : Value}
    {number : Int} (isNumber : value.number? = some number) :
    ∃ word, wordOfValue? type value = some word ∧
      (word : Int) % 2 ^ (8 * type.size) = number % 2 ^ (8 * type.size) := by
  rw [wordOfValue?_of_whole whole]
  cases value with
  | int signed =>
      cases isNumber
      have narrower : (2 : Int) ^ (8 * type.size) ∣ 2 ^ 64 :=
        pow_dvd_pow 2 (by cases type <;> decide)
      have agree := congrArg (· % (2 : Int) ^ (8 * type.size)) (toNat_toUInt64_emod signed)
      simp only [Int.emod_emod_of_dvd _ narrower] at agree
      exact ⟨_, rfl, agree⟩
  | uint unsigned =>
      cases isNumber
      exact ⟨_, rfl, rfl⟩
  | float | bytes => cases isNumber

theorem wordOfValue?_eq_none {type : PrimitiveType} (whole : type.isFloat = false) {value : Value}
    (noNumber : value.number? = none) : wordOfValue? type value = none := by
  rw [wordOfValue?_of_whole whole]
  cases value with
  | int | uint => cases noNumber
  | float | bytes => rfl

/-! ### Bytes in place -/

@[simp] theorem ordered_ordered (order : ByteOrder) (bytes : List UInt8) :
    ordered order (ordered order bytes) = bytes := by
  cases order with
  | littleEndian => rfl
  | bigEndian => exact List.reverse_reverse bytes

@[simp] theorem length_ordered (order : ByteOrder) (bytes : List UInt8) :
    (ordered order bytes).length = bytes.length := by
  cases order with
  | littleEndian => rfl
  | bigEndian => exact List.length_reverse

/-- Bytes stored at an index and behind it, one after another. -/
def storeBytes (index : Nat) : List UInt8 → Buffer → Buffer
  | [], buffer => buffer
  | byte :: rest, buffer => storeBytes (index + 1) rest (buffer.setIfInBounds index byte)

/-- A window turned round: the outermost two bytes are exchanged, and then those further inside. -/
def turnWindow (index : Nat) : (width : Nat) → Buffer → Buffer
  | 0, buffer | 1, buffer => buffer
  | width + 2, buffer =>
    turnWindow (index + 1) width (buffer.swapIfInBounds index (index + (width + 1)))

variable {buffer : Buffer} {index : Nat}

theorem toList_storeBytes (bytes : List UInt8) :
    ∀ {before old after : List UInt8} {buffer : Buffer},
      buffer.toList = before ++ (old ++ after) → old.length = bytes.length →
      (storeBytes before.length bytes buffer).toList = before ++ (bytes ++ after) := by
  induction bytes with
  | nil =>
      intro before old after buffer parts length
      rw [List.eq_nil_of_length_eq_zero length] at parts
      exact parts
  | cons byte rest ih =>
      intro before old after buffer parts length
      cases old with
      | nil => cases length
      | cons first others =>
          have stored : (buffer.setIfInBounds before.length byte).toList =
              (before ++ [byte]) ++ (others ++ after) := by
            rw [Array.toList_setIfInBounds, parts]
            simp
          have next := ih stored (Nat.succ.inj length)
          rw [List.length_append, List.length_singleton] at next
          rw [storeBytes, next]
          simp

theorem toList_swapEnds {before inner after : List UInt8} {first last : UInt8} {buffer : Buffer}
    (parts : buffer.toList = before ++ (first :: (inner ++ last :: after))) :
    (buffer.swapIfInBounds before.length (before.length + (inner.length + 1))).toList =
      before ++ (last :: (inner ++ first :: after)) := by
  have size : buffer.size = before.length + (inner.length + (after.length + 2)) := by
    rw [← Array.length_toList, parts]
    simp only [List.length_append, List.length_cons]
    omega
  have firstInside : before.length < buffer.size := by omega
  have lastInside : before.length + (inner.length + 1) < buffer.size := by omega
  have isFirst : buffer[before.length] = first := by
    rw [← Array.getElem_toList]
    simp [parts]
  have isLast : buffer[before.length + (inner.length + 1)] = last := by
    rw [← Array.getElem_toList]
    simp [parts]
  rw [Array.swapIfInBounds, dif_pos firstInside, dif_pos lastInside, Array.toList_swap, isFirst,
    isLast, parts]
  simp

theorem toList_turnWindow :
    ∀ (width : Nat) {before window after : List UInt8} {buffer : Buffer},
      buffer.toList = before ++ (window ++ after) → window.length = width →
      (turnWindow before.length width buffer).toList = before ++ (window.reverse ++ after)
  | 0, before, window, after, buffer, parts, length => by
      rw [List.eq_nil_of_length_eq_zero length] at parts ⊢
      exact parts
  | 1, before, window, after, buffer, parts, length => by
      obtain ⟨byte, rfl⟩ := List.length_eq_one_iff.mp length
      exact parts
  | width + 2, before, window, after, buffer, parts, length => by
      cases window with
      | nil => cases length
      | cons first rest =>
          -- what is left of the window has a last byte, and `width` bytes in front of it
          have notEmpty : rest ≠ [] := by
            rintro rfl
            cases length
          obtain ⟨inner, last, rfl⟩ := List.eq_nil_or_concat rest |>.resolve_left notEmpty
          have innerLength : inner.length = width := by
            simpa using length
          have ends : buffer.toList = before ++ (first :: (inner ++ last :: after)) := by
            rw [parts]
            simp
          have swapped := toList_swapEnds ends
          rw [innerLength] at swapped
          have parts' : (buffer.swapIfInBounds before.length (before.length + (width + 1))).toList =
              (before ++ [last]) ++ (inner ++ first :: after) := by
            rw [swapped]
            simp
          have turned := toList_turnWindow width parts' innerLength
          rw [List.length_append, List.length_singleton] at turned
          rw [turnWindow, turned]
          simp

theorem toList_overwrite {before old after bytes : List UInt8}
    (parts : buffer.toList = before ++ (old ++ after)) (length : old.length = bytes.length) :
    (overwrite buffer before.length bytes).toList = before ++ (bytes ++ after) := by
  rw [overwrite, parts, List.take_left, ← length, ← List.append_assoc before old,
    ← List.length_append, List.drop_left, List.append_assoc]

/-- Bytes that are put over others stand there, and nothing else has changed. -/
theorem overwrite_spec {bytes : List UInt8} (inside : index + bytes.length ≤ buffer.size) :
    BytesAt (overwrite buffer index bytes) index bytes ∧
      (overwrite buffer index bytes).size = buffer.size ∧
      ∀ place, place < index ∨ index + bytes.length ≤ place →
        (overwrite buffer index bytes)[place]? = buffer[place]? := by
  obtain ⟨old, length, before, after, parts, rfl⟩ := exists_bytesAt inside
  have written := toList_overwrite parts length
  refine ⟨⟨before, after, written, rfl⟩, ?_, fun place outside => ?_⟩
  · rw [← Array.length_toList, written, ← Array.length_toList, parts]
    simp [length]
  · rw [← Array.getElem?_toList, written, ← Array.getElem?_toList, parts]
    rcases outside with front | behind
    · rw [List.getElem?_append_left front, List.getElem?_append_left front]
    · rw [← List.append_assoc, ← List.append_assoc,
        List.getElem?_append_right (by rw [List.length_append]; exact behind),
        List.getElem?_append_right (by rw [List.length_append, length]; exact behind),
        List.length_append, List.length_append, length]

/-- Bytes that are put where they stand already change nothing. -/
theorem overwrite_bytesAt {bytes : List UInt8} (stands : BytesAt buffer index bytes) :
    overwrite buffer index bytes = buffer := by
  obtain ⟨before, after, parts, rfl⟩ := stands
  exact Array.toList_inj.mp ((toList_overwrite parts rfl).trans parts.symm)

/-- Storing bytes from an index on, and turning them round for the other order, puts them there in
that order. -/
theorem storeBytes_ordered {bytes : List UInt8} (inside : index + bytes.length ≤ buffer.size) :
    storeBytes index bytes buffer = overwrite buffer index bytes ∧
      turnWindow index bytes.length (storeBytes index bytes buffer) =
        overwrite buffer index bytes.reverse := by
  obtain ⟨old, length, before, after, parts, rfl⟩ := exists_bytesAt inside
  have stored := toList_storeBytes bytes parts length
  constructor
  · exact Array.toList_inj.mp (stored.trans (toList_overwrite parts length).symm)
  · have turned := toList_turnWindow _ stored rfl
    refine Array.toList_inj.mp (turned.trans (toList_overwrite parts ?_).symm)
    rw [length, List.length_reverse]

/-! ### Programs that write -/

/-- A program that changes a buffer in place.  What it has changed stays when it breaks off. -/
abbrev Writing := ExceptT AccessError (StateM Buffer)

namespace Writing

/-- Write one scalar. -/
def scalar (index : Nat) (type : PrimitiveType) (order : ByteOrder) (value : Value) :
    Writing Unit := do
  let some word := wordOfValue? type value | throw (.unwritableValue type value)
  let buffer ← get
  let some _ := (Guarded.sum? index type.size).filter (· ≤ buffer.size)
    | throw (.outOfBounds index type.size buffer.size)
  modify (storeBytes index (littleEndian type.size word))
  if order = .bigEndian then modify (turnWindow index type.size)

/-- What there is after a buffer was to become another one: the other one, or the buffer as it was
and a problem. -/
def become (buffer : Buffer) : Except AccessError Buffer → Except AccessError Unit × Buffer
  | .ok written => (.ok (), written)
  | .error problem => (.error problem, buffer)

theorem sum_eq (small : buffer.size ≤ lastPosition) (width : Nat) :
    (Guarded.sum? index width).filter (· ≤ buffer.size) =
      if index + width ≤ buffer.size then some (index + width) else none := by
  have last : lastPosition = UInt64.size - 1 := rfl
  rw [Guarded.sum?]
  by_cases inside : index + width ≤ buffer.size
  · have word : index + width < UInt64.size := by
      have : UInt64.size = 2 ^ 64 := rfl
      omega
    rw [if_pos inside, if_pos word, Option.filter_some, if_pos (decide_eq_true inside)]
  · rw [if_neg inside]
    split
    · rw [Option.filter_some, if_neg (by simpa using inside)]
    · rfl

/-- A program that looks at the buffer goes on with the buffer that it is run on. -/
theorem run_get_bind (next : Buffer → Writing Unit) (buffer : Buffer) :
    ((get : Writing Buffer) >>= next).run.run buffer = (next buffer).run.run buffer :=
  rfl

/-- Writing in place is writing, and leaves the buffer as it was if it breaks off. -/
theorem run_scalar (small : buffer.size ≤ lastPosition) (index : Nat) (type : PrimitiveType)
    (order : ByteOrder) (value : Value) :
    (scalar index type order value).run.run buffer =
      become buffer (writePrimitive buffer index type order value) := by
  unfold scalar writePrimitive
  cases wordOfValue? type value with
  | none => rfl
  | some word =>
      refine (run_get_bind _ buffer).trans ?_
      rw [sum_eq small]
      by_cases inside : index + type.size ≤ buffer.size
      · have width : (littleEndian type.size word).length = type.size := length_littleEndian _ _
        obtain ⟨stored, turned⟩ := storeBytes_ordered (by rwa [width])
        rw [width] at turned
        rw [if_pos inside]
        simp only [if_pos inside, become]
        cases order with
        | littleEndian => exact congrArg _ stored
        | bigEndian => exact congrArg _ turned
      · simp only [if_neg inside]
        rfl

end Writing

/-! ### What is read from a window -/

/-- The order that is not this one. -/
def ByteOrder.opposite : ByteOrder → ByteOrder
  | .littleEndian => .bigEndian
  | .bigEndian => .littleEndian

theorem ordered_opposite (order : ByteOrder) (bytes : List UInt8) :
    ordered order.opposite bytes = ordered order bytes.reverse := by
  cases order with
  | littleEndian => rfl
  | bigEndian => exact (List.reverse_reverse bytes).symm

variable {type : PrimitiveType} {window : List UInt8}

/-- A scalar is what the bytes of its window spell, wherever the window stands. -/
theorem readPrimitive_window (stands : BytesAt buffer index window)
    (length : window.length = type.size) (order : ByteOrder) :
    readPrimitive buffer index type order =
      .ok (valueOfWord type (ofLittleEndian (ordered order window))) := by
  have inside : 0 + type.size ≤ window.length := by omega
  have read := readPrimitive_bytesAt stands type order inside
  rwa [Nat.add_zero, List.drop_zero, ← length, List.take_length] at read

/-- What was read is what the bytes of a window spell, which are a word of the width of the type. -/
theorem exists_window_of_read {order : ByteOrder} {found : Value}
    (read : readPrimitive buffer index type order = .ok found) :
    ∃ window, window.length = type.size ∧ BytesAt buffer index window ∧
      ofLittleEndian (ordered order window) < wordCount type.size ∧
      found = valueOfWord type (ofLittleEndian (ordered order window)) := by
  by_cases inside : index + type.size ≤ buffer.size
  · obtain ⟨window, length, stands⟩ := exists_bytesAt inside
    rw [readPrimitive_window stands length] at read
    have inWidth := ofLittleEndian_lt (ordered order window)
    rw [length_ordered, length] at inWidth
    exact ⟨window, length, stands, inWidth, (Except.ok.inj read).symm⟩
  · rw [readPrimitive, slice, if_neg inside] at read
    cases read

/-- Read in the other order, a window is read as the same bytes turned round. -/
theorem readPrimitive_opposite (stands : BytesAt buffer index window)
    (length : window.length = type.size) (order : ByteOrder) :
    ∃ result, readPrimitive buffer index type order.opposite = .ok result ∧
      readPrimitive window.reverse.toArray 0 type order = .ok result := by
  have alone : BytesAt window.reverse.toArray 0 window.reverse := ⟨[], [], by simp, rfl⟩
  refine ⟨_, readPrimitive_window stands length order.opposite, ?_⟩
  rw [readPrimitive_window alone (by rwa [List.length_reverse]), ordered_opposite]

/-- An integer that is written with room for it. -/
theorem writePrimitive_of_number (whole : type.isFloat = false) (order : ByteOrder) {value : Value}
    {number : Int} (isNumber : value.number? = some number)
    (inside : index + type.size ≤ buffer.size) :
    ∃ bytes, bytes.length = type.size ∧
      type.Keeps number (valueOfWord type (ofLittleEndian (ordered order bytes))) ∧
      writePrimitive buffer index type order value = .ok (overwrite buffer index bytes) := by
  obtain ⟨word, isWord, agrees⟩ := exists_wordOfValue whole isNumber
  refine ⟨ordered order (littleEndian type.size word), by simp, ?_, ?_⟩
  · have inWidth : word % wordCount type.size < wordCount type.size := by
      apply Nat.mod_lt
      rw [wordCount_eq_two_pow]
      exact Nat.two_pow_pos _
    rw [ordered_ordered, ofLittleEndian_littleEndian]
    refine (valueOfWord_keeps whole inWidth).congr ?_
    rw [wordCount_eq_two_pow]
    push_cast
    rw [Int.emod_emod_of_dvd _ (dvd_refl _), agrees]
  · simp only [writePrimitive, isWord, if_pos inside]

/-- Nothing else can be written. -/
theorem writePrimitive_of_noNumber (whole : type.isFloat = false) (order : ByteOrder)
    {value : Value} (noNumber : value.number? = none) :
    writePrimitive buffer index type order value = .error (.unwritableValue type value) := by
  simp only [writePrimitive, wordOfValue?_eq_none whole noNumber]

theorem writePrimitive_of_noRoom (whole : type.isFloat = false) (order : ByteOrder) {value : Value}
    {number : Int} (isNumber : value.number? = some number)
    (outside : buffer.size < index + type.size) :
    writePrimitive buffer index type order value =
      .error (.outOfBounds index type.size buffer.size) := by
  obtain ⟨word, isWord, _⟩ := exists_wordOfValue whole isNumber
  simp only [writePrimitive, isWord, if_neg (Nat.not_le.mpr outside)]

/-- A value that was read is written back as the bytes that it was read from. -/
theorem writePrimitive_of_read (whole : type.isFloat = false) {order : ByteOrder} {found : Value}
    (read : readPrimitive buffer index type order = .ok found) :
    writePrimitive buffer index type order found = .ok buffer := by
  obtain ⟨window, length, stands, inWidth, rfl⟩ := exists_window_of_read read
  have inside := stands.length_le
  rw [length] at inside
  obtain ⟨_, kept, isKept, agrees⟩ := valueOfWord_keeps whole inWidth
  obtain ⟨word, isWord, agreesToo⟩ := exists_wordOfValue whole isKept
  have sameWord : word % wordCount type.size =
      ofLittleEndian (ordered order window) % wordCount type.size := by
    rw [wordCount_eq_two_pow]
    exact_mod_cast agreesToo.trans agrees
  have sameBytes : littleEndian type.size word = ordered order window := by
    rw [← littleEndian_mod, sameWord, littleEndian_mod, ← length, ← length_ordered order window,
      littleEndian_ofLittleEndian]
  simp only [writePrimitive, isWord, if_pos inside, sameBytes, ordered_ordered,
    overwrite_bytesAt stands]

/-- Writing a value into a buffer for an integer type.  An integer for whose bytes there is room is
written; it changes nothing but its window, is read back as the one integer of the type that agrees
with it in the width of the type, and is read in the other order as the window turned round would
be.  Where there is no room, or the value is no integer, the program breaks off and has changed
nothing.  And whatever was read is written back without a change. -/
theorem Writing.scalar_window (whole : type.isFloat = false) (order : ByteOrder)
    (small : buffer.size ≤ lastPosition) (index : Nat) (value : Value) :
    let written := (Writing.scalar index type order value).run.run buffer
    written = become buffer (writePrimitive buffer index type order value) ∧
    (∀ number, value.number? = some number → index + type.size ≤ buffer.size →
      written.1 = .ok () ∧ written.2.size = buffer.size ∧
      (∀ place, place < index ∨ index + type.size ≤ place → written.2[place]? = buffer[place]?) ∧
      (∃ result, readPrimitive written.2 index type order = .ok result ∧
        ∀ other, type.Keeps number other ↔ other = result) ∧
      ∃ window, BytesAt written.2 index window ∧ window.length = type.size ∧
        ∃ result, readPrimitive written.2 index type order.opposite = .ok result ∧
          readPrimitive window.reverse.toArray 0 type order = .ok result) ∧
    (value.number? = none → written = (.error (.unwritableValue type value), buffer)) ∧
    (∀ number, value.number? = some number →
      buffer.size < index + type.size ∨ lastPosition < index + type.size →
        written = (.error (.outOfBounds index type.size buffer.size), buffer)) ∧
    ∀ found, readPrimitive buffer index type order = .ok found →
      (Writing.scalar index type order found).run.run buffer = (.ok (), buffer) := by
  intro written
  have isWritten : written = become buffer (writePrimitive buffer index type order value) :=
    run_scalar small index type order value
  refine ⟨isWritten, ?room, ?noNumber, ?noRoom, ?again⟩
  case room =>
    intro number isNumber inside
    obtain ⟨window, length, keeps, isWindow⟩ :=
      writePrimitive_of_number whole order isNumber inside
    obtain ⟨stands, sameSize, others⟩ := overwrite_spec (by rwa [length])
    rw [length] at others
    rw [isWritten, isWindow]
    refine ⟨rfl, sameSize, others, ?_, window, stands, length,
      readPrimitive_opposite stands length order⟩
    refine ⟨_, readPrimitive_window stands length order, fun other => ?_⟩
    constructor
    · exact fun keepsOther => keepsOther.unique keeps
    · rintro rfl
      exact keeps
  case noNumber =>
    intro noNumber
    rw [isWritten, writePrimitive_of_noNumber whole order noNumber]
    rfl
  case noRoom =>
    intro number isNumber outside
    rw [isWritten, writePrimitive_of_noRoom whole order isNumber (by omega)]
    rfl
  case again =>
    intro found read
    rw [run_scalar small, writePrimitive_of_read whole read]
    rfl

/-- A negative number of two bytes in the middle of a buffer, and the same one too near to its
end. -/
theorem Writing.scalar_window_negative :
    let buffer : Buffer := #[1, 2, 3, 4]
    let written := (Writing.scalar 1 .int16 .bigEndian (.int (-300))).run.run buffer
    let late := (Writing.scalar 3 .int16 .bigEndian (.int (-300))).run.run buffer
    PrimitiveType.int16.isFloat = false ∧ buffer.size ≤ lastPosition ∧
      Value.number? (.int (-300)) = some (-300) ∧ written = (.ok (), #[1, 0xfe, 0xd4, 4]) ∧
      (∃ result, readPrimitive written.2 1 .int16 .bigEndian = .ok result ∧
        ∀ other, PrimitiveType.int16.Keeps (-300) other ↔ other = result) ∧
      readPrimitive written.2 1 .int16 .bigEndian = .ok (.int (-300)) ∧
      late = (.error (.outOfBounds 3 2 4), buffer) := by
  intro buffer written late
  have whole : PrimitiveType.int16.isFloat = false := rfl
  have small : buffer.size ≤ lastPosition := by decide
  have isNumber : Value.number? (.int (-300)) = some (-300) := by decide
  obtain ⟨_, room, _⟩ := Writing.scalar_window whole .bigEndian small 1 (.int (-300))
  obtain ⟨_, _, _, noRoom, _⟩ :=
    Writing.scalar_window whole .bigEndian small 3 (.int (-300))
  obtain ⟨_, _, _, reads, _⟩ := room _ isNumber (by decide)
  exact ⟨rfl, small, isNumber, rfl, reads, by decide +kernel,
    noRoom _ isNumber (.inl (by decide))⟩

end WireSchema
