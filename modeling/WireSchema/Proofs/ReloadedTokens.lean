/-
Module: WireSchema.Proofs.ReloadedTokens
Purpose: The tokens that are stored for a message have been checked, reduced and measured.  When
  they are read back and go through the same passes again, every pass leaves them alone: no constant
  lacks its value, none has a length left to lose, and measuring restores the spans that it found
  before.
Main exports: Irreducible, Token.ConstantGiven, Token.remeasured, Token.reread_remeasured
-/
import WireSchema.Proofs.KeptTokens
import WireSchema.Proofs.StoredReading

namespace WireSchema

/-! ### Tokens that were read back -/

@[simp] theorem Token.signal_reread (token : Token) : token.reread.signal = token.signal := rfl

@[simp] theorem Token.name_reread (token : Token) : token.reread.name = token.name := rfl

@[simp] theorem Token.isConstant_reread (token : Token) :
    token.reread.isConstant = token.isConstant := rfl

@[simp] theorem Token.encodedLength_reread (token : Token) :
    token.reread.encodedLength = token.encodedLength := rfl

/-- A reference is the same text after it was read back. -/
theorem valueReference_reread (field : Token) :
    valueReference field.reread = valueReference field := by
  have constValue : field.reread.encoding.constValue =
      field.encoding.constValue.map Value.canonical := rfl
  rw [valueReference, valueReference, constValue]
  cases field.encoding.constValue with
  | none => rfl
  | some value => exact value.schemaText_canonical none

theorem constValue_reread_eq_none (token : Token) :
    token.reread.encoding.constValue = none ↔ token.encoding.constValue = none :=
  Option.map_eq_none_iff

/-! ### Reducing again -/

/-- A token is not reduced further if it is no constant encoding with a length. -/
theorem emptiedConstant_eq_self {token : Token}
    (empty : token.signal = .encoding → token.isConstant = true → token.encodedLength = 0) :
    emptiedConstant token = token := by
  rw [emptiedConstant]
  split
  · rename_i both
    rw [Token.emptied, ← empty both.1 both.2]
  · rfl

theorem encodedLength_of_unspanned {first second : Token}
    (same : first.unspanned = second.unspanned) : first.encodedLength = second.encodedLength :=
  (congrArg Token.encodedLength same :
    first.unspanned.encodedLength = second.unspanned.encodedLength)

/-- A token that was reduced on its own is not reduced further. -/
theorem emptiedConstant_of_unspanned {token stored : Token}
    (same : stored.unspanned = (emptiedConstant token).unspanned) :
    emptiedConstant stored = stored := by
  apply emptiedConstant_eq_self
  intro isEncoding constant
  rw [signal_of_unspanned same, signal_emptiedConstant] at isEncoding
  rw [isConstant_of_unspanned same, Token.isConstant, encoding_emptiedConstant] at constant
  rw [encodedLength_of_unspanned same, emptiedConstant, if_pos ⟨isEncoding, constant⟩]
  rfl

theorem emptied_of_unspanned {token stored : Token}
    (same : stored.unspanned = token.emptied.unspanned) : stored.emptied = stored := by
  have empty : stored.encodedLength = 0 := encodedLength_of_unspanned same
  rw [Token.emptied, ← empty]

theorem fixed_of_unspanned {token stored : Token}
    (same : stored.unspanned = token.emptied.fixed.unspanned) : stored.emptied.fixed = stored := by
  have empty : stored.encodedLength = 0 := encodedLength_of_unspanned same
  have constant : stored.encoding.presence = .constant :=
    (congrArg (fun token : Token => token.encoding.presence) same :
      stored.unspanned.encoding.presence = token.emptied.fixed.unspanned.encoding.presence)
  rw [Token.fixed, Token.emptied, ← empty, ← constant]

/-- The same after it was read back. -/
theorem emptiedConstant_reread {token stored : Token}
    (same : stored.unspanned = (emptiedConstant token).unspanned) :
    emptiedConstant stored.reread = stored.reread := by
  have commutes : emptiedConstant stored.reread = (emptiedConstant stored).reread := by
    unfold emptiedConstant
    change (if stored.signal = .encoding ∧ stored.isConstant then stored.reread.emptied
      else stored.reread) = _
    split <;> rfl
  rw [commutes, emptiedConstant_of_unspanned same]

/-- Some tokens are not reduced further, wherever they stand. -/
def Irreducible (tokens : List Token) : Prop :=
  ∀ index tail, reduceConstants index (tokens ++ tail) =
    (reduceConstants (index + tokens.length) tail).map (tokens ++ ·)

namespace Irreducible

theorem nil : Irreducible [] := by
  intro index tail
  rw [List.nil_append, List.length_nil, Nat.add_zero]
  cases reduceConstants index tail <;> rfl

theorem cons {token : Token} {rest : List Token} (unchanged : emptiedConstant token = token)
    (plain : ∀ tail, wrapsConstantEnum token (rest ++ tail) = false) (later : Irreducible rest) :
    Irreducible (token :: rest) := by
  intro index tail
  have position : index + 1 + rest.length = index + (token :: rest).length := by
    rw [List.length_cons]
    omega
  rw [List.cons_append, reduceConstants_cons (plain tail), later, position, unchanged]
  cases reduceConstants (index + (token :: rest).length) tail <;> rfl

theorem append {first second : List Token} (one : Irreducible first)
    (other : Irreducible second) : Irreducible (first ++ second) := by
  intro index tail
  rw [List.append_assoc, one, other, List.length_append, Nat.add_assoc]
  cases reduceConstants (index + (first.length + second.length)) tail with
  | error problem => rfl
  | ok later => simp [Except.map]

/-- The token that closes a construct. -/
theorem closing {token : Token} {component : Component}
    (closes : token.signal.closes? = some component) : Irreducible [token] :=
  .cons (emptiedConstant_of_ne (ne_encoding_of_closes? closes))
    (fun _ => wrapsConstantEnum_of_ne (ne_beginField_of_closes? closes) _) .nil

/-- A construct that is no constant field around an enum. -/
theorem enclosed {component : Component} {opening closing : Token} {inner : List Token}
    (opens : opening.signal.opens? = some component)
    (closes : closing.signal.closes? = some component)
    (plain : wrapsConstantEnum opening inner = false) (inside : Irreducible inner) :
    Irreducible (enclose opening inner closing) := by
  have plainBefore : ∀ tail, wrapsConstantEnum opening (inner ++ [closing] ++ tail) = false := by
    intro tail
    rw [List.append_assoc, List.singleton_append, wrapsConstantEnum_append closes, plain]
  exact .cons (emptiedConstant_of_ne (ne_encoding_of_opens? opens)) plainBefore
    (inside.append (.closing closes))

/-- A constant field in front of an enum of the one value that it refers to. -/
theorem constantEnum {field opening value closing : Token} {behind : List Token}
    (isField : field.signal = .beginField) (constant : field.isConstant = true)
    (opens : opening.signal = .beginEnum) (emptyOpening : opening.emptied = opening)
    (isValue : value.signal ≠ .endEnum) (fixedValue : value.emptied.fixed = value)
    (closes : closing.signal = .endEnum) (emptyClosing : closing.emptied = closing)
    (referred : refersTo (valueReference field) value.name = true) (later : Irreducible behind) :
    Irreducible (field :: (enclose opening [value] closing ++ behind)) := by
  intro index tail
  have wraps : ∀ rest, wrapsConstantEnum field (opening :: rest) = true := by
    intro rest
    simp [wrapsConstantEnum, isField, constant, opens]
  have position : index + [value].length + 3 + behind.length =
      index + (field :: (enclose opening [value] closing ++ behind)).length := by
    simp only [List.length_cons, List.length_append, length_enclose, List.length_nil]
    omega
  have regroup : field :: (enclose opening [value] closing ++ behind) ++ tail =
      field :: opening :: value :: closing :: (behind ++ tail) := by
    simp [enclose]
  rw [regroup, reduceConstants.eq_def]
  simp only [wraps, if_true]
  have ending : (value :: closing :: (behind ++ tail)).dropWhile
      (fun token => decide (token.signal ≠ .endEnum)) = closing :: (behind ++ tail) := by
    simp [isValue, closes]
  have values : (value :: closing :: (behind ++ tail)).takeWhile
      (fun token => decide (token.signal ≠ .endEnum)) = [value] := by
    simp [isValue, closes]
  have found : [value].find? (fun value => refersTo (valueReference field) value.name) =
      some value := by
    simp [referred]
  split
  · rename_i none
    rw [ending] at none
    cases none
  · rename_i last after isLast
    rw [ending] at isLast
    cases isLast
    rw [values, found]
    simp only
    rw [later, position, emptyOpening, fixedValue, emptyClosing]
    cases reduceConstants (index + (field :: (enclose opening [value] closing ++ behind)).length)
      tail with
    | error problem => rfl
    | ok rest => simp [Except.map, bind, Except.bind, enclose]

theorem alone {tokens : List Token} (irreducible : Irreducible tokens) :
    reduceConstants 0 tokens = .ok tokens := by
  have whole := irreducible 0 []
  rw [List.append_nil] at whole
  rw [whole, reduceConstants]
  simp [Except.map]

end Irreducible

theorem map_reread_enclose (opening : Token) (inner : List Token) (closing : Token) :
    (enclose opening inner closing).map Token.reread =
      enclose opening.reread (inner.map Token.reread) closing.reread := by
  simp [enclose]

theorem emptied_reread {token stored : Token}
    (same : stored.unspanned = token.emptied.unspanned) :
    stored.reread.emptied = stored.reread :=
  congrArg Token.reread (emptied_of_unspanned same)

theorem fixed_reread {token stored : Token}
    (same : stored.unspanned = token.emptied.fixed.unspanned) :
    stored.reread.emptied.fixed = stored.reread :=
  congrArg Token.reread (fixed_of_unspanned same)

/-- What is stored is not reduced further when it was read back. -/
theorem Kept.irreducible {insideType : Bool} {tokens stored : List Token}
    (kept : Kept insideType tokens stored) : Irreducible (stored.map Token.reread) := by
  induction kept with
  | nil => exact .nil
  | @leaf insideType token stored rest storedRest opensNothing closesNothing same later ih =>
      have notField : stored.reread.signal ≠ .beginField := by
        intro isField
        rw [Token.signal_reread] at isField
        rw [isField] at opensNothing
        cases opensNothing
      exact .cons (emptiedConstant_reread same) (fun _ => wrapsConstantEnum_of_ne notField _) ih
  | @construct insideType component opening closing storedOpening storedClosing inner storedInner
      rest storedRest opens closes noMessage named plain sameOpening sameClosing inside later
      ihInside ihLater =>
      have opensReread : storedOpening.reread.signal.opens? = some component := opens
      have closesReread : storedClosing.reread.signal.closes? = some component := closes
      have plainReread : wrapsConstantEnum storedOpening.reread (storedInner.map Token.reread) =
          false := by
        rw [← plain]
        cases storedInner <;> rfl
      rw [List.map_append, map_reread_enclose]
      exact (Irreducible.enclosed opensReread closesReread plainReread ihInside).append ihLater
  | @constantField field opening closing ending values behind rest storedField storedOpening value
      storedClosing storedEnding kept storedBehind storedRest isField constant opens isValue closes
      named endsField fieldNamed within referred sameField sameOpening sameValue sameClosing
      sameEnding inside later ihInside ihLater =>
      have closesField : storedEnding.reread.signal.closes? = some .field :=
        congrArg Signal.closes? endsField
      have notEnd : value.reread.signal ≠ .endEnum := by
        rw [Token.signal_reread, isValue]
        decide
      have refers : refersTo (valueReference storedField.reread) value.reread.name = true := by
        rw [valueReference_reread]
        exact referred
      have opensReread : storedOpening.reread.signal = .beginEnum := opens
      have closesReread : storedClosing.reread.signal = .endEnum := closes
      have isFieldReread : storedField.reread.signal = .beginField := isField
      have whole := Irreducible.constantEnum isFieldReread constant opensReread
        (emptied_reread sameOpening) notEnd (fixed_reread sameValue) closesReread
        (emptied_reread sameClosing) refers (ihInside.append (.closing closesField))
      have regroup : (enclose storedField (enclose storedOpening [value] storedClosing ++
          storedBehind) storedEnding).map Token.reread =
          storedField.reread :: (enclose storedOpening.reread [value.reread]
            storedClosing.reread ++ (storedBehind.map Token.reread ++ [storedEnding.reread])) := by
        simp [enclose]
      rw [List.map_append, regroup]
      exact whole.append ihLater

/-! ### Checking again -/

/-- Whether a constant token has its value. -/
def Token.ConstantGiven (token : Token) : Prop :=
  token.isConstant = true → token.encoding.constValue ≠ none

/-- The check for constants finds none without a value. -/
theorem checkConstants_eq_ok_iff (index : Nat) (tokens : List Token) :
    checkConstants index tokens = .ok () ↔ ∀ token ∈ tokens, token.ConstantGiven := by
  induction tokens generalizing index with
  | nil => simp [checkConstants]
  | cons token rest ih =>
      rw [checkConstants, List.forall_mem_cons, ← ih (index + 1)]
      by_cases missing : token.isConstant = true ∧ token.encoding.constValue = none
      · simp [missing, Token.ConstantGiven]
      · have given : token.ConstantGiven := fun constant none => missing ⟨constant, none⟩
        rw [if_neg missing]
        simp [given]

theorem constantGiven_of_encoding {first second : Token}
    (same : first.unspanned.encoding = second.encoding) (given : second.ConstantGiven) :
    first.ConstantGiven := by
  have encodings : first.encoding = second.encoding := same
  unfold Token.ConstantGiven Token.isConstant at *
  rwa [encodings]

/-- Stored constants have their values if the values of enums do. -/
theorem Kept.constantGiven {insideType : Bool} {tokens stored : List Token}
    (kept : Kept insideType tokens stored) (given : ∀ token ∈ tokens, token.ConstantGiven)
    (valuesGiven : ∀ token ∈ stored, token.signal = .validValue →
      token.encoding.constValue ≠ none) :
    ∀ token ∈ stored, token.ConstantGiven := by
  induction kept with
  | nil => simp
  | @leaf insideType token stored rest storedRest opensNothing closesNothing same later ih =>
      rw [List.forall_mem_cons] at given valuesGiven ⊢
      have encodings : stored.unspanned.encoding = token.encoding := by
        rw [same]
        exact encoding_emptiedConstant token
      exact ⟨constantGiven_of_encoding encodings given.1, ih given.2 valuesGiven.2⟩
  | @construct insideType component opening closing storedOpening storedClosing inner storedInner
      rest storedRest opens closes noMessage named plain sameOpening sameClosing inside later
      ihInside ihLater =>
      simp only [enclose, List.cons_append, List.append_assoc, List.nil_append,
        List.forall_mem_cons, List.forall_mem_append] at given valuesGiven ⊢
      obtain ⟨givenOpening, givenInner, givenClosing, givenRest⟩ := given
      obtain ⟨_, valuesInner, _, valuesRest⟩ := valuesGiven
      exact ⟨constantGiven_of_encoding (congrArg Token.encoding sameOpening) givenOpening,
        ihInside givenInner valuesInner,
        constantGiven_of_encoding (congrArg Token.encoding sameClosing) givenClosing,
        ihLater givenRest valuesRest⟩
  | @constantField field opening closing ending values behind rest storedField storedOpening value
      storedClosing storedEnding kept storedBehind storedRest isField constant opens isValue closes
      named endsField fieldNamed within referred sameField sameOpening sameValue sameClosing
      sameEnding inside later ihInside ihLater =>
      simp only [enclose, List.cons_append, List.append_assoc, List.nil_append,
        List.forall_mem_cons, List.forall_mem_append] at given valuesGiven ⊢
      obtain ⟨givenField, givenOpening, _, givenClosing, givenBehind, givenEnding, givenRest⟩ :=
        given
      obtain ⟨_, _, valueGiven, _, valuesBehind, _, valuesRest⟩ := valuesGiven
      exact ⟨constantGiven_of_encoding (congrArg Token.encoding sameField) givenField,
        constantGiven_of_encoding (congrArg Token.encoding sameOpening) givenOpening,
        fun _ => valueGiven isValue,
        constantGiven_of_encoding (congrArg Token.encoding sameClosing) givenClosing,
        ihInside givenBehind valuesBehind,
        constantGiven_of_encoding (congrArg Token.encoding sameEnding) givenEnding,
        ihLater givenRest valuesRest⟩

/-! ### Measuring again -/

/-- The token as it is after it was read back and measured again. -/
def Token.remeasured (token : Token) : Token :=
  if token.IsLeaf then token.reread else token.canonical

/-- What was measured by its nesting is measured alike when it was read back. -/
theorem MeasuresTo.reread {tokens stored : List Token} (measures : MeasuresTo tokens stored) :
    MeasuresTo (stored.map Token.reread) (stored.map Token.remeasured) := by
  have same := map_signal_of_unspanned (unspanned_withSpans (withSpans_of_measuresTo measures))
  have sameReread : (stored.map Token.reread).map Token.signal = tokens.map Token.signal := by
    rw [List.map_map, ← same]
    rfl
  have again := measures.respan sameReread
  have pointwise : (stored.map Token.reread).zipWith Token.respan stored =
      stored.map Token.remeasured := by
    rw [List.zipWith_map_left, List.zipWith_self]
    rfl
  rwa [pointwise] at again

/-- The token with its span as it shows it. -/
theorem Token.reread_eq_canonical {token : Token} (positive : 1 ≤ token.storedSpan) :
    token.reread = token.canonical := by
  have atLeast : 1 ≤ token.storedSpan.toInt := Int32.le_iff_toInt_le.mp positive
  have nonnegative : 0 ≤ token.storedSpan := by
    rw [Int32.le_iff_toInt_le, Int32.toInt_zero]
    omega
  have cast := Int32.cast_toNatClampNeg token.storedSpan nonnegative
  have shown : token.span = token.storedSpan.toNatClampNeg := by
    rw [Token.span]
    omega
  have span : Int32.ofNat token.span = token.storedSpan := by
    rw [shown, Int32.ofNat_toNatClampNeg _ nonnegative]
  rw [Token.reread, span]
  rfl

theorem Token.canonical_canonical (token : Token) :
    token.canonical.canonical = token.canonical := by
  have twice : Value.canonical ∘ Value.canonical = Value.canonical :=
    funext Value.canonical_canonical
  simp only [Token.canonical, Encoding.canonical, Option.map_map, twice]

/-- A span that was shown is shown again. -/
theorem Token.span_reread (token : Token) : token.reread.span = token.span := by
  have positive := token.span_pos
  have small : token.span < 2 ^ 31 := by
    have clamped := Int32.toNatClampNeg_lt token.storedSpan
    rw [Token.span]
    omega
  change max (Int32.ofNat token.span).toNatClampNeg 1 = token.span
  rw [Int32.toNatClampNeg_ofNat_of_lt small]
  omega

theorem Token.reread_canonical (token : Token) : token.canonical.reread = token.reread := by
  rw [Token.reread, token.canonical_canonical]
  rfl

theorem Token.reread_remeasured (token : Token) : token.remeasured.reread = token.reread := by
  have reread : token.reread.reread = token.reread := by
    have same : token.reread.canonical = token.reread := by
      change token.canonical.canonical.withSpan _ = _
      rw [token.canonical_canonical]
      rfl
    rw [Token.reread, token.span_reread, same]
    rfl
  unfold Token.remeasured
  split
  · exact reread
  · exact token.reread_canonical

end WireSchema
