/-
Module: WireSchema.Proofs.NumberReading
Purpose: Every number is read back from its own text: whole numbers of 64 bits, with and without
  sign, and floating point words.  Of the words that are not numbers only one is read back, since
  all of them are written alike.
Main exports: Binary64.canonical, Reading.binary64?_text
-/
import Mathlib.Data.List.TakeWhile
import WireSchema.Number.Reading
import WireSchema.Proofs.ShortestDecimal
import WireSchema.Text.Characters

namespace WireSchema

open BinaryFormat

/-! ### Digits -/

theorem Decimal.isDigit_of_mem_digitText {number : Nat} {character : Char}
    (member : character ∈ digitText number) : character.isDigit = true :=
  Nat.isDigit_of_mem_toDigits (by decide) (by decide) member

theorem Decimal.ofDigitChars_digitText (number : Nat) :
    Nat.ofDigitChars 10 (digitText number) 0 = number :=
  Nat.ofDigitChars_ten_toDigits

/-- No text of digits can be split by a sign. -/
theorem Reading.splitSign_of_isDigit {first : Char} (isDigit : first.isDigit = true)
    (rest : List Char) : splitSign (first :: rest) = (false, first :: rest) := by
  have notMinus : first ≠ '-' := by
    rintro rfl
    cases isDigit
  have notPlus : first ≠ '+' := by
    rintro rfl
    cases isDigit
  unfold splitSign
  split
  · rename_i matched
    cases matched
    contradiction
  · rename_i matched
    cases matched
    contradiction
  · rfl

/-- A number that its digits write is read back. -/
theorem Reading.natural?_digitText (number : Nat) :
    natural? (Decimal.digitText number) = some number := by
  have digits : (Decimal.digitText number).all Char.isDigit = true :=
    List.all_eq_true.mpr fun _ member => Decimal.isDigit_of_mem_digitText member
  rw [natural?, if_pos ⟨Nat.toDigits_ne_nil, digits⟩, Decimal.ofDigitChars_digitText]

theorem Reading.splitSign_digitText (number : Nat) :
    splitSign (Decimal.digitText number) = (false, Decimal.digitText number) := by
  generalize isText : Decimal.digitText number = text
  cases text with
  | nil => exact absurd isText Nat.toDigits_ne_nil
  | cons first rest =>
      exact splitSign_of_isDigit
        (Decimal.isDigit_of_mem_digitText (isText ▸ List.mem_cons_self)) rest

/-! ### White space -/

theorem Text.dropWhile_isBlank_eq_self {text : List Char}
    (solid : ∀ character ∈ text, isBlank character = false) : text.dropWhile isBlank = text := by
  rw [List.dropWhile_eq_self_iff]
  intro nonempty
  simp [solid _ (List.getElem_mem nonempty)]

/-- A text without white space is as it is. -/
theorem Text.trim_eq_self {text : List Char}
    (solid : ∀ character ∈ text, isBlank character = false) : trim text = text := by
  have backwards : ∀ character ∈ text.reverse, isBlank character = false :=
    fun character member => solid character (List.mem_reverse.mp member)
  rw [trim, dropWhile_isBlank_eq_self solid, dropWhile_isBlank_eq_self backwards,
    List.reverse_reverse]

theorem Text.isBlank_of_isDigit {character : Char} (isDigit : character.isDigit = true) :
    isBlank character = false := by
  have low : 48 ≤ character.toNat := by
    simp only [Char.isDigit, Bool.and_eq_true, decide_eq_true_eq] at isDigit
    exact isDigit.1
  have high : character.toNat ≤ 57 := by
    simp only [Char.isDigit, Bool.and_eq_true, decide_eq_true_eq] at isDigit
    exact isDigit.2
  simp only [isBlank, blankRanges, List.any_cons, List.any_nil, Bool.or_false, Bool.or_eq_false_iff,
    Bool.and_eq_false_iff, decide_eq_false_iff_not]
  omega

/-! ### Whole numbers -/

theorem toList_toString_nat (number : Nat) :
    (toString number).toList = Decimal.digitText number :=
  Nat.toList_repr

theorem toList_toString_negSucc (number : Nat) :
    (toString (Int.negSucc number)).toList = '-' :: Decimal.digitText (number + 1) := by
  change ("-" ++ (number + 1).repr).toList = _
  rw [String.toList_append, Nat.toList_repr]
  rfl

theorem Reading.integer?_toString (number : Int) :
    integer? (toString number).toList = some number := by
  cases number with
  | ofNat number =>
      change integer? (toString number).toList = _
      rw [toList_toString_nat, integer?, splitSign_digitText]
      simp [natural?_digitText]
  | negSucc number =>
      rw [toList_toString_negSucc]
      simp only [integer?, splitSign, natural?_digitText]
      rfl

theorem Text.trim_toString_int (number : Int) :
    trim (toString number).toList = (toString number).toList := by
  apply trim_eq_self
  intro character member
  cases number with
  | ofNat number =>
      change character ∈ (toString number).toList at member
      rw [toList_toString_nat] at member
      exact isBlank_of_isDigit (Decimal.isDigit_of_mem_digitText member)
  | negSucc number =>
      rw [toList_toString_negSucc] at member
      rcases List.mem_cons.mp member with rfl | member
      · decide
      · exact isBlank_of_isDigit (Decimal.isDigit_of_mem_digitText member)

/-- A whole number with sign is read back. -/
theorem Reading.int64?_toString (number : Int64) :
    int64? (Text.trim (toString number.toInt).toList) = some number := by
  have least : Int64.minValue.toInt ≤ number.toInt := Int64.minValue_le_toInt number
  have greatest : number.toInt ≤ Int64.maxValue.toInt := Int64.toInt_le number
  rw [Text.trim_toString_int, int64?, integer?_toString, Option.bind_some,
    if_pos ⟨least, greatest⟩, Int64.ofInt_toInt]

/-- A whole number without sign is read back. -/
theorem Reading.uint64?_toString (number : UInt64) :
    uint64? (Text.trim (toString number.toNat).toList) = some number := by
  have solid : Text.trim (toString number.toNat).toList = (toString number.toNat).toList :=
    Text.trim_toString_int (number.toNat : Int)
  have small : number.toNat < UInt64.size := number.toNat_lt
  rw [solid, toList_toString_nat, uint64?, splitSign_digitText]
  simp [natural?_digitText, small]

/-! ### Decimal numbers -/

/-- What reading the digits before a point, and those behind it, leaves. -/
theorem Reading.decimal?_of_digits {whole rest : List Char}
    (digits : ∀ character ∈ whole, character.isDigit = true)
    (stops : rest.takeWhile Char.isDigit = []) :
    decimal? (whole ++ rest) =
      if whole = [] ∧ (splitFraction rest).1 = [] then none
      else (exponent? (splitFraction rest).2).map fun exponent =>
        ⟨Nat.ofDigitChars 10 (whole ++ (splitFraction rest).1) 0,
          exponent - (splitFraction rest).1.length⟩ := by
  have left : rest.dropWhile Char.isDigit = rest := by
    have parts := List.takeWhile_append_dropWhile (p := Char.isDigit) (l := rest)
    rwa [stops, List.nil_append] at parts
  simp only [decimal?, List.takeWhile_append_of_pos digits, stops, List.append_nil,
    List.dropWhile_append_of_pos digits, left]

/-- Digits without a point are a whole number. -/
theorem Reading.decimal?_whole {whole : List Char} (nonempty : whole ≠ [])
    (digits : ∀ character ∈ whole, character.isDigit = true) :
    decimal? whole = some ⟨Nat.ofDigitChars 10 whole 0, 0⟩ := by
  have noRest : ([] : List Char).takeWhile Char.isDigit = [] := rfl
  have read := decimal?_of_digits digits noRest
  rw [List.append_nil] at read
  simp [read, splitFraction, exponent?, nonempty]

/-- Digits around a point are a number with as many places as digits behind the point. -/
theorem Reading.decimal?_pointed {whole fraction : List Char} (nonempty : whole ≠ [])
    (digits : ∀ character ∈ whole ++ fraction, character.isDigit = true) :
    decimal? (whole ++ '.' :: fraction) =
      some ⟨Nat.ofDigitChars 10 (whole ++ fraction) 0, -fraction.length⟩ := by
  have wholeDigits : ∀ character ∈ whole, character.isDigit = true :=
    fun character member => digits character (List.mem_append_left _ member)
  have fractionDigits : ∀ character ∈ fraction, character.isDigit = true :=
    fun character member => digits character (List.mem_append_right _ member)
  have taken : fraction.takeWhile Char.isDigit = fraction :=
    List.takeWhile_eq_self_iff.mpr fractionDigits
  have dropped : fraction.dropWhile Char.isDigit = [] := by
    rw [List.dropWhile_eq_nil_iff]
    exact fractionDigits
  have stops : List.takeWhile Char.isDigit ('.' :: fraction) = [] := rfl
  rw [decimal?_of_digits wholeDigits stops]
  simp [splitFraction, taken, dropped, exponent?, nonempty]

theorem isDigit_of_mem_replicate_zero {count : Nat} {character : Char}
    (member : character ∈ List.replicate count '0') : character.isDigit = true := by
  rw [List.eq_of_mem_replicate member]
  rfl

theorem Decimal.isDigit_digitText (number : Nat) :
    ∀ character ∈ Decimal.digitText number, character.isDigit = true :=
  fun _ member => Decimal.isDigit_of_mem_digitText member

/-- Zeros stand in for an exponent that is not negative. -/
theorem Reading.decimal?_padded {decimal : Decimal} (nonnegative : 0 ≤ decimal.exponent) :
    ∃ read, decimal? (Decimal.digitText decimal.digits ++
        List.replicate decimal.exponent.toNat '0') = some read ∧
      read.value = decimal.value := by
  have nonempty : Decimal.digitText decimal.digits ≠ [] := Nat.toDigits_ne_nil
  obtain ⟨power, isPower⟩ := Int.eq_ofNat_of_zero_le nonnegative
  refine ⟨_, decimal?_whole (by simp [nonempty]) ?_, ?_⟩
  · intro character member
    rcases List.mem_append.mp member with member | member
    · exact Decimal.isDigit_digitText _ character member
    · exact isDigit_of_mem_replicate_zero member
  · rw [Nat.ofDigitChars_append, Decimal.ofDigitChars_digitText, Nat.ofDigitChars_replicate_zero]
    simp [Decimal.value, isPower, mul_comm]

/-- The point stands among the digits. -/
theorem Reading.decimal?_divided {decimal : Decimal} (negative : ¬0 ≤ decimal.exponent)
    (some : 0 < decimal.places) :
    ∃ read, decimal? ((Decimal.digitText decimal.digits).take decimal.places.toNat ++
        '.' :: (Decimal.digitText decimal.digits).drop decimal.places.toNat) = .some read ∧
      read.value = decimal.value := by
  have few : decimal.places.toNat ≤ (Decimal.digitText decimal.digits).length := by
    rw [Decimal.places] at some ⊢
    omega
  refine ⟨_, decimal?_pointed ?_ ?_, ?_⟩
  · intro none
    have length := congrArg List.length none
    rw [List.length_take, Nat.min_eq_left few, List.length_nil] at length
    omega
  · rw [List.take_append_drop]
    exact Decimal.isDigit_digitText _
  · have places : -((List.drop decimal.places.toNat
        (Decimal.digitText decimal.digits)).length : Int) = decimal.exponent := by
      rw [List.length_drop]
      rw [Decimal.places] at some few ⊢
      omega
    rw [List.take_append_drop, Decimal.ofDigitChars_digitText, places]

/-- Zeros stand between the point and the digits. -/
theorem Reading.decimal?_leading {decimal : Decimal} (none : ¬0 < decimal.places) :
    ∃ read, decimal? ('0' :: '.' :: (List.replicate (-decimal.places).toNat '0' ++
        Decimal.digitText decimal.digits)) = some read ∧
      read.value = decimal.value := by
  have fraction : '0' :: '.' :: (List.replicate (-decimal.places).toNat '0' ++
      Decimal.digitText decimal.digits) =
      ['0'] ++ '.' :: (List.replicate (-decimal.places).toNat '0' ++
        Decimal.digitText decimal.digits) := rfl
  rw [fraction]
  refine ⟨_, decimal?_pointed (by simp) ?_, ?_⟩
  · intro character member
    rcases List.mem_append.mp member with member | member
    · rw [List.mem_singleton.mp member]
      rfl
    rcases List.mem_append.mp member with member | member
    · exact isDigit_of_mem_replicate_zero member
    · exact Decimal.isDigit_digitText _ character member
  · have places : -((List.replicate (-decimal.places).toNat '0' ++
        Decimal.digitText decimal.digits).length : Int) = decimal.exponent := by
      rw [List.length_append, List.length_replicate]
      rw [Decimal.places] at none ⊢
      omega
    have zeros : Nat.ofDigitChars 10 ['0'] 0 = 0 := rfl
    rw [Nat.ofDigitChars_append, zeros, Nat.ofDigitChars_append, Nat.ofDigitChars_replicate_zero,
      Nat.mul_zero, Decimal.ofDigitChars_digitText, places]

/-- The plain spelling of a decimal number is read as a number of the same value. -/
theorem Reading.decimal?_plain (decimal : Decimal) :
    ∃ read, decimal? decimal.plain = some read ∧ read.value = decimal.value := by
  unfold Decimal.plain
  split
  · rename_i zero
    refine ⟨⟨0, 0⟩, rfl, ?_⟩
    simp [Decimal.value, zero]
  split
  · rename_i nonnegative
    exact decimal?_padded nonnegative
  rename_i negative
  split
  · rename_i some
    exact decimal?_divided negative some
  · rename_i none
    exact decimal?_leading none

/-- The plain spelling starts with a digit and holds nothing but digits and points. -/
theorem Decimal.plain_characters (decimal : Decimal) :
    (∃ first rest, decimal.plain = first :: rest ∧ first.isDigit = true) ∧
      ∀ character ∈ decimal.plain, character.isDigit = true ∨ character = '.' := by
  have digits := isDigit_digitText decimal.digits
  have zero : ('0' : Char).isDigit = true := rfl
  generalize isText : digitText decimal.digits = text at digits
  cases text with
  | nil => exact absurd isText Nat.toDigits_ne_nil
  | cons first rest =>
      have firstDigit := digits first List.mem_cons_self
      simp only [plain, isText]
      split
      · simp [zero]
      split
      · refine ⟨⟨first, _, rfl, firstDigit⟩, fun character member => .inl ?_⟩
        rcases List.mem_append.mp member with member | member
        · exact digits character member
        · exact isDigit_of_mem_replicate_zero member
      split
      · rename_i some
        obtain ⟨count, isCount⟩ : ∃ count, decimal.places.toNat = count + 1 :=
          ⟨decimal.places.toNat - 1, by omega⟩
        rw [isCount, List.take_succ_cons, List.drop_succ_cons]
        refine ⟨⟨first, _, rfl, firstDigit⟩, fun character member => ?_⟩
        rcases List.mem_append.mp member with member | member
        · rcases List.mem_cons.mp member with rfl | member
          · exact .inl firstDigit
          · exact .inl (digits character (List.mem_cons_of_mem _ (List.mem_of_mem_take member)))
        rcases List.mem_cons.mp member with rfl | member
        · exact .inr rfl
        · exact .inl (digits character (List.mem_cons_of_mem _ (List.mem_of_mem_drop member)))
      · refine ⟨⟨'0', _, rfl, zero⟩, fun character member => ?_⟩
        rcases List.mem_cons.mp member with rfl | member
        · exact .inl zero
        rcases List.mem_cons.mp member with rfl | member
        · exact .inr rfl
        rcases List.mem_append.mp member with member | member
        · exact .inl (isDigit_of_mem_replicate_zero member)
        · exact .inl (digits character member)

/-! ### Floating point words -/

/-- The word itself, or the one word that is read for all those that are not numbers. -/
def Binary64.canonical (word : Binary64) : Binary64 :=
  if word.isNaN then nan else word

theorem Binary64.canonical_canonical (word : Binary64) :
    word.canonical.canonical = word.canonical := by
  by_cases number : word.isNaN = true
  · rw [canonical, canonical, if_pos number]
    rfl
  · rw [canonical, canonical, if_neg number, if_neg number]

theorem toLower_of_isDigit {character : Char} (isDigit : character.isDigit = true) :
    character.toLower = character := by
  have small : ¬(character.val ≥ 'A'.val ∧ character.val ≤ 'Z'.val) := by
    grind [Char.isDigit]
  exact dif_neg small

/-- The plain spelling of a decimal number is read as the magnitude nearest to it. -/
theorem Reading.magnitude?_plain (decimal : Decimal) :
    magnitude? decimal.plain = some (double.ofDecimal decimal) := by
  obtain ⟨first, rest, isText, firstDigit⟩ := decimal.plain_characters.1
  obtain ⟨read, isRead, sameValue⟩ := decimal?_plain decimal
  have noWord : ∀ word : String, word.toList.head?.any Char.isDigit = false →
      String.ofList (decimal.plain.map Char.toLower) ≠ word := by
    intro word noDigit same
    rw [← same, String.toList_ofList, isText, List.map_cons, toLower_of_isDigit firstDigit,
      List.head?_cons, Option.any_some, firstDigit] at noDigit
    cases noDigit
  simp only [magnitude?, noWord "inf" rfl, noWord "infinity" rfl, noWord "nan" rfl, or_self,
    if_false, isRead, Option.map_some, ofDecimal_eq_of_value_eq double_wide sameValue]

/-- A magnitude that is a number is read back from its text. -/
theorem Reading.magnitude?_magnitudeText {magnitude : Nat} (number : magnitude ≤ double.infinity) :
    magnitude? (Binary64.magnitudeText double Decimal.plain magnitude) = some magnitude := by
  unfold Binary64.magnitudeText
  split
  · rename_i infinite
    rw [← infinite]
    rfl
  · rename_i notInfinite
    rw [magnitude?_plain]
    split
    · rename_i zero
      simp [ofDecimal, zero]
    · rw [ofDecimal_shortest double_wide (by omega)]

/-- The text of a magnitude has no sign and no white space. -/
theorem Binary64.magnitudeText_characters (magnitude : Nat) :
    (∃ first rest, magnitudeText double Decimal.plain magnitude = first :: rest ∧
      first ≠ '-' ∧ first ≠ '+') ∧
      ∀ character ∈ magnitudeText double Decimal.plain magnitude,
        Text.isBlank character = false := by
  unfold magnitudeText
  split
  · refine ⟨⟨'i', ['n', 'f'], rfl, by decide, by decide⟩, ?_⟩
    change ∀ character ∈ ['i', 'n', 'f'], Text.isBlank character = false
    simp only [List.forall_mem_cons]
    exact ⟨by decide, by decide, by decide, nofun⟩
  · generalize (if magnitude = 0 then (⟨0, 0⟩ : Decimal) else double.shortest magnitude) = decimal
    obtain ⟨⟨first, rest, isText, firstDigit⟩, characters⟩ := decimal.plain_characters
    refine ⟨⟨first, rest, isText, ?_, ?_⟩, fun character member => ?_⟩
    · rintro rfl
      cases firstDigit
    · rintro rfl
      cases firstDigit
    · rcases characters character member with isDigit | rfl
      · exact Text.isBlank_of_isDigit isDigit
      · decide

/-- The sign and the magnitude of a word are the word. -/
theorem Binary64.ofParts_magnitude (word : Binary64) :
    ofParts word.isNegative word.magnitude = word := by
  obtain ⟨bits⟩ := word
  have small : bits.toNat < 2 ^ 64 := bits.toNat_lt
  have signWord : double.signWord = 2 ^ 63 := by decide
  rw [ofParts, isNegative, magnitude, signWord]
  congr 1
  apply UInt64.toNat_inj.mp
  rw [UInt64.toNat_ofNat']
  by_cases negative : 2 ^ 63 ≤ bits.toNat
  · simp only [negative, decide_true, if_true]
    omega
  · simp only [negative, decide_false, Bool.false_eq_true, if_false]
    omega

/-- A floating point word is read back, up to the choice among the words that are not numbers. -/
theorem Reading.binary64?_text (word : Binary64) :
    binary64? (Text.trim word.text.toList) = some word.canonical := by
  unfold Binary64.text Binary64.signedText Binary64.canonical Binary64.isNaN
  by_cases notNumber : double.infinity < word.magnitude
  · simp only [notNumber, if_true, decide_true]
    rfl
  simp only [notNumber, if_false, decide_false, Bool.false_eq_true, String.toList_ofList]
  obtain ⟨⟨first, rest, isText, notMinus, notPlus⟩, solid⟩ :=
    Binary64.magnitudeText_characters word.magnitude
  have unsigned : splitSign (first :: rest) = (false, first :: rest) := by
    unfold splitSign
    split
    · rename_i matched
      cases matched
      contradiction
    · rename_i matched
      cases matched
      contradiction
    · rfl
  have read := magnitude?_magnitudeText (Nat.le_of_not_lt notNumber)
  have parts := word.ofParts_magnitude
  cases sign : word.isNegative with
  | false =>
      rw [sign] at parts
      rw [if_neg (by decide), List.nil_append, Text.trim_eq_self solid, isText, binary64?, unsigned]
      rw [isText] at read
      simp [read, parts]
  | true =>
      rw [sign] at parts
      have solidSigned : ∀ character ∈ ['-'] ++ Binary64.magnitudeText double Decimal.plain
          word.magnitude, Text.isBlank character = false := by
        intro character member
        rcases List.mem_cons.mp member with rfl | member
        · decide
        · exact solid character member
      rw [if_pos rfl, Text.trim_eq_self solidSigned, List.singleton_append, binary64?]
      simp [splitSign, read, parts]

end WireSchema
