/-
Module: WireSchema.Proofs.TextLengths
Purpose: A schema writes a value that it has read as the text that it has read, or else as the text
  of a number (`Value.schemaText_of_parse`).  No number needs many characters: whole numbers have at
  most twenty, and floating point words, of which every place is written, have fewer than 1100.
Main exports: Decimal.width, Value.schemaText_of_parse
-/
import WireSchema.Proofs.ValueReading

namespace WireSchema

open BinaryFormat

/-! ### Bytes of a text -/

namespace Text

theorem length_utf8Bytes (text : String) : (utf8Bytes text).length = text.utf8ByteSize := rfl

/-- Characters of the first 128 take a byte each. -/
theorem length_utf8Bytes_ofList {characters : List Char}
    (ascii : ∀ character ∈ characters, character.val ≤ 127) :
    (utf8Bytes (String.ofList characters)).length = characters.length := by
  induction characters with
  | nil => rfl
  | cons first others ih =>
      rw [List.forall_mem_cons] at ascii
      rw [length_utf8Bytes] at ih ⊢
      rw [← List.singleton_append, String.ofList_append, String.utf8ByteSize_append, ih ascii.2,
        ← String.singleton_eq_ofList, String.utf8ByteSize_singleton,
        Char.utf8Size_eq_one_iff.mpr ascii.1, List.length_append, List.length_singleton]

theorem ascii_of_isDigit {character : Char} (isDigit : character.isDigit = true) :
    character.val ≤ 127 := by
  simp only [Char.isDigit, Bool.and_eq_true, decide_eq_true_eq] at isDigit
  exact UInt32.le_trans isDigit.2 (by decide)

end Text

/-! ### Digits -/

namespace Decimal

theorem length_digitText_le {number bound : Nat} (positive : 0 < bound)
    (small : number < 10 ^ bound) : (digitText number).length ≤ bound :=
  (Nat.length_toDigits_le_iff (by decide) positive).mpr small

/-- How many characters a decimal number takes at most: all digits with a point among them, or with
zeros behind them, or the zeros in front of them and behind the point. -/
def width (decimal : Decimal) : Int :=
  max ((digitText decimal.digits).length + 1)
    (max ((digitText decimal.digits).length + decimal.exponent) (2 - decimal.exponent))

theorem length_plain_le (decimal : Decimal) : (decimal.plain.length : Int) ≤ decimal.width := by
  have digits := List.length_pos_of_ne_nil (@Nat.toDigits_ne_nil decimal.digits 10)
  change 0 < (digitText decimal.digits).length at digits
  have isPlaces : decimal.places = (digitText decimal.digits).length + decimal.exponent := rfl
  simp only [plain, width]
  split
  · simp only [List.length_singleton]
    omega
  split
  · simp only [List.length_append, List.length_replicate]
    omega
  split
  · simp only [List.length_append, List.length_cons, List.length_take, List.length_drop]
    omega
  · simp only [List.length_append, List.length_cons, List.length_replicate]
    omega

theorem width_normal_le (decimal : Decimal) : decimal.normal.width ≤ decimal.width := by
  fun_induction normal decimal with
  | case1 decimal divisible ih =>
      have large : 10 ≤ decimal.digits := by omega
      have oneMore : digitText decimal.digits =
          digitText (decimal.digits / 10) ++ [(decimal.digits % 10).digitChar] :=
        Nat.toDigits_of_base_le (by decide) large
      refine ih.trans ?_
      simp only [width, oneMore, List.length_append, List.length_singleton]
      omega
  | case2 => exact Int.le_refl _

end Decimal

/-! ### Finite magnitudes -/

theorem pow_lt_of_exponent_le {base exponent most bound : Nat} (positive : 0 < base)
    (atMost : exponent ≤ most) (small : base ^ most < bound) : base ^ exponent < bound :=
  (Nat.pow_le_pow_right positive atMost).trans_lt small

theorem mul_pow_lt_of_exponent_le {factor limit base exponent most bound : Nat}
    (below : factor < limit) (positive : 0 < base) (atMost : exponent ≤ most)
    (small : limit * base ^ most ≤ bound) : factor * base ^ exponent < bound :=
  (Nat.mul_lt_mul_of_lt_of_le below (Nat.pow_le_pow_right positive atMost)
    (Nat.pow_pos positive)).trans_le small

/-- The significand and the exponent of a finite magnitude. -/
theorem unpack_double_bounds {magnitude : Nat} (finite : magnitude < double.infinity) :
    (double.unpack magnitude).1 < 2 ^ 53 ∧ -1074 ≤ (double.unpack magnitude).2 ∧
      (double.unpack magnitude).2 ≤ 971 := by
  have infinity : double.infinity = 2047 * 2 ^ 52 := by decide
  have count : double.fractionCount = 2 ^ 52 := by decide
  have least : double.leastExponent = -1074 := by decide
  rw [infinity] at finite
  simp only [unpack, count, least]
  split <;> dsimp only <;> omega

/-- The two parts of the quotient of a finite magnitude. -/
theorem ratio_double_bounds {magnitude : Nat} (finite : magnitude < double.infinity) :
    (double.ratio magnitude).1 < 10 ^ 309 ∧ (double.ratio magnitude).2 < 10 ^ 324 := by
  obtain ⟨significand, least, greatest⟩ := unpack_double_bounds finite
  simp only [ratio, powerRatio]
  split
  · have power : (double.unpack magnitude).2.toNat ≤ 971 := by omega
    exact ⟨mul_pow_lt_of_exponent_le significand Nat.two_pos power (by decide +kernel),
      (by decide +kernel : 1 < 10 ^ 324)⟩
  · have power : (-(double.unpack magnitude).2).toNat ≤ 1074 := by omega
    refine ⟨?_, pow_lt_of_exponent_le Nat.two_pos power (by decide +kernel)⟩
    rw [Nat.mul_one]
    exact significand.trans (by decide +kernel)

/-- The number of places of a quotient of two numbers of so many digits. -/
theorem placesOfRatio_bounds {numerator denominator up down : Nat} (someUp : 0 < up)
    (someDown : 0 < down) (small : numerator < 10 ^ up) (large : denominator < 10 ^ down) :
    -(down : Int) < placesOfRatio numerator denominator ∧
      placesOfRatio numerator denominator ≤ up := by
  have whole : (Decimal.digitText (numerator / denominator)).length ≤ up :=
    Decimal.length_digitText_le someUp ((Nat.div_le_self _ _).trans_lt small)
  have zeros : (Decimal.digitText (denominator / numerator)).length ≤ down :=
    Decimal.length_digitText_le someDown ((Nat.div_le_self _ _).trans_lt large)
  simp only [placesOfRatio]
  split
  · omega
  · split <;> omega

/-- A neighbour that is taken for a quotient on the grid of some power of ten. -/
theorem width_gridNeighbour_le {magnitude numerator denominator : Nat} {exponent : Int}
    {decimal : Decimal} (small : numerator < 10 ^ 309) (least : -340 ≤ exponent)
    (greatest : exponent ≤ 309)
    (taken : double.gridNeighbour magnitude numerator denominator exponent = some decimal) :
    decimal.width ≤ 1076 := by
  have scaled : numerator * (powerRatio 10 exponent).2 < 10 ^ 649 := by
    rw [powerRatio]
    split
    · rw [Nat.mul_one]
      exact small.trans (by decide +kernel)
    · have power : (-exponent).toNat ≤ 340 := by omega
      exact mul_pow_lt_of_exponent_le small (by decide) power (by decide +kernel)
  have onGrid : ∀ digits : Nat, digits ≤ numerator * (powerRatio 10 exponent).2 + 1 →
      (⟨digits, exponent⟩ : Decimal).width ≤ 1076 := by
    intro digits few
    have enough : digits < 10 ^ 650 := by
      exact few.trans_lt ((Nat.add_lt_add_right scaled 1).trans (by decide +kernel))
    have length := Decimal.length_digitText_le (by decide) enough
    simp only [Decimal.width]
    omega
  have below := onGrid _ ((Nat.div_le_self _
    (denominator * (powerRatio 10 exponent).1)).trans (Nat.le_succ _))
  have above := onGrid _ (Nat.succ_le_succ (Nat.div_le_self _
    (denominator * (powerRatio 10 exponent).1)))
  simp only [gridNeighbour] at taken
  split at taken
  · split at taken
    · cases taken
      exact above
    · cases taken
      exact below
  · split at taken
    · cases taken
      exact above
    · cases taken

/-- Every digit of a finite magnitude. -/
theorem width_exactDecimal_le {magnitude : Nat} (finite : magnitude < double.infinity) :
    (double.exactDecimal magnitude).width ≤ 1076 := by
  obtain ⟨significand, least, greatest⟩ := unpack_double_bounds finite
  simp only [exactDecimal]
  split
  · have power : (double.unpack magnitude).2.toNat ≤ 971 := by omega
    have digits : (double.unpack magnitude).1 * 2 ^ (double.unpack magnitude).2.toNat < 10 ^ 309 :=
      mul_pow_lt_of_exponent_le significand Nat.two_pos power (by decide +kernel)
    have length := Decimal.length_digitText_le (by decide) digits
    simp only [Decimal.width, Nat.pow_eq]
    omega
  · have power : (-(double.unpack magnitude).2).toNat ≤ 1074 := by omega
    have digits : (double.unpack magnitude).1 * 5 ^ (-(double.unpack magnitude).2).toNat <
        10 ^ 767 :=
      mul_pow_lt_of_exponent_le significand (by decide) power (by decide +kernel)
    have length := Decimal.length_digitText_le (by decide) digits
    simp only [Decimal.width, Nat.pow_eq]
    omega

/-- The shortest decimal number of a finite magnitude. -/
theorem width_shortest_le {magnitude : Nat} (finite : magnitude < double.infinity) :
    (double.shortest magnitude).width ≤ 1076 := by
  obtain ⟨small, large⟩ := ratio_double_bounds finite
  have places := placesOfRatio_bounds (by decide) (by decide) small large
  simp only [shortest]
  refine (Decimal.width_normal_le _).trans ?_
  cases isFound : (List.range 17).findSome? fun count : Nat =>
      double.gridNeighbour magnitude (double.ratio magnitude).1 (double.ratio magnitude).2
        (placesOfRatio (double.ratio magnitude).1 (double.ratio magnitude).2 - count - 1) with
  | none => exact width_exactDecimal_le finite
  | some decimal =>
      obtain ⟨count, inRange, taken⟩ := List.exists_of_findSome?_eq_some isFound
      rw [List.mem_range] at inRange
      exact width_gridNeighbour_le small (by omega) (by omega) taken

/-! ### Numbers -/

/-- Every place of a magnitude. -/
theorem Binary64.magnitudeText_short {magnitude : Nat} (number : magnitude ≤ double.infinity) :
    (magnitudeText double Decimal.plain magnitude).length ≤ 1076 ∧
      ∀ character ∈ magnitudeText double Decimal.plain magnitude, character.val ≤ 127 := by
  unfold magnitudeText
  split
  · have ascii : ("inf".toList.all fun character => decide (character.val ≤ 127)) = true := by
      decide
    exact ⟨by decide, fun character member =>
      of_decide_eq_true (List.all_eq_true.mp ascii character member)⟩
  rename_i finite
  have narrow : (if magnitude = 0 then ⟨0, 0⟩ else double.shortest magnitude : Decimal).width ≤
      1076 := by
    split
    · have length := Decimal.length_digitText_le Nat.one_pos (by decide : 0 < 10 ^ 1)
      simp only [Decimal.width]
      omega
    · exact width_shortest_le (by omega)
  generalize (if magnitude = 0 then ⟨0, 0⟩ else double.shortest magnitude : Decimal) = decimal
    at narrow ⊢
  have length := decimal.length_plain_le
  refine ⟨by omega, fun character member => ?_⟩
  rcases decimal.plain_characters.2 character member with isDigit | rfl
  · exact Text.ascii_of_isDigit isDigit
  · decide

/-- A floating point word with every place written, and its sign. -/
theorem Binary64.length_text_lt (word : Binary64) : (Text.utf8Bytes word.text).length < 1100 := by
  unfold text signedText
  split
  · decide
  rename_i number
  obtain ⟨short, ascii⟩ := magnitudeText_short (Nat.le_of_not_lt number)
  rw [Text.length_utf8Bytes_ofList]
  · rw [List.length_append]
    split
    · rw [List.length_singleton]
      omega
    · rw [List.length_nil]
      omega
  · rw [List.forall_mem_append]
    refine ⟨?_, ascii⟩
    split
    · exact List.forall_mem_singleton.mpr (by decide)
    · exact List.forall_mem_nil _

theorem Text.length_utf8Bytes_toString_nat {number : Nat} (small : number < 10 ^ 20) :
    (utf8Bytes (toString number)).length ≤ 20 := by
  have isText : toString number = String.ofList (Decimal.digitText number) := by
    rw [← toList_toString_nat, String.ofList_toList]
  rw [isText, length_utf8Bytes_ofList]
  · exact Decimal.length_digitText_le (by decide) small
  · exact fun character member => ascii_of_isDigit (Decimal.isDigit_of_mem_digitText member)

theorem Text.length_utf8Bytes_toString_int {number : Int} (small : number.natAbs < 10 ^ 20) :
    (utf8Bytes (toString number)).length ≤ 21 := by
  cases number with
  | ofNat number => exact (length_utf8Bytes_toString_nat small).trans (Nat.le_succ 20)
  | negSucc number =>
      have isText : toString (Int.negSucc number) = "-" ++ toString (number + 1) := rfl
      have digits := @length_utf8Bytes_toString_nat (number + 1) small
      rw [length_utf8Bytes] at digits ⊢
      rw [isText, String.utf8ByteSize_append]
      have sign : ("-" : String).utf8ByteSize = 1 := rfl
      omega

namespace Value

/-- The text of a value that was read is what was read, or the text of a number. -/
theorem schemaText_of_parse {type : Option PrimitiveType} {text : String} {value : Value}
    (read : parse text type = .ok value) :
    value.schemaText type = text ∨ (Text.utf8Bytes (value.schemaText type)).length < 1100 := by
  cases type with
  | none =>
      cases read
      exact .inl (Text.ofUtf8Lossy_utf8Bytes text)
  | some known =>
      rw [parse] at read
      split at read
      · rename_i found isFound
        cases read
        cases known with
        | char =>
            cases isFound
            exact .inl (schemaText_ofCharacters text)
        | int8 | int16 | int32 | int64 =>
            obtain ⟨number, _, rfl⟩ := Option.map_eq_some_iff.mp isFound
            have small : number.toInt.natAbs < 10 ^ 20 := by
              have least := number.le_toInt
              have greatest := number.toInt_lt
              omega
            exact .inr ((Text.length_utf8Bytes_toString_int small).trans_lt (by decide))
        | uint8 | uint16 | uint32 | uint64 =>
            obtain ⟨number, _, rfl⟩ := Option.map_eq_some_iff.mp isFound
            have small : number.toNat < 10 ^ 20 := number.toNat_lt.trans (by decide)
            exact .inr ((Text.length_utf8Bytes_toString_nat small).trans_lt (by decide))
        | float | double =>
            obtain ⟨word, _, rfl⟩ := Option.map_eq_some_iff.mp isFound
            exact .inr word.length_text_lt
      · cases read

end Value

end WireSchema
