/-
Module: WireSchema.Proofs.KeptTokens
Purpose: `Kept` relates the tokens of a message to those that a draft stores for it, construct by
  construct.  Everything is kept but the values of an enum that a constant field wraps, of which one
  remains, and the lengths of constants.  Spans are left out of account.
Main exports: Kept, Shaped.keptFrom, keptMessage_of_reduceConstants
-/
import Mathlib.Data.List.TakeWhile
import WireSchema.Proofs.NestedTokens
import WireSchema.Proofs.ReducedTree
import WireSchema.Proofs.StoredMessage

namespace WireSchema

/-!
That the stored tokens are shaped says much about the tokens that they come from
(`Shaped.keptFrom`): only what stood between the ends of a constant enum is open.
-/

/-- Some tokens, and those that are stored for them. -/
inductive Kept : Bool → List Token → List Token → Prop where
  | nil {insideType : Bool} : Kept insideType [] []
  | leaf {insideType : Bool} {token stored : Token} {rest storedRest : List Token}
      (opensNothing : stored.signal.opens? = none) (closesNothing : stored.signal.closes? = none)
      (same : stored.unspanned = (emptiedConstant token).unspanned)
      (later : Kept insideType rest storedRest) :
      Kept insideType (token :: rest) (stored :: storedRest)
  | construct {insideType : Bool} {component : Component}
      {opening closing storedOpening storedClosing : Token}
      {inner storedInner rest storedRest : List Token}
      (opens : storedOpening.signal.opens? = some component)
      (closes : storedClosing.signal.closes? = some component) (noMessage : component ≠ .message)
      (named : storedClosing.name = storedOpening.name)
      (plain : wrapsConstantEnum storedOpening storedInner = false)
      (sameOpening : storedOpening.unspanned = opening.unspanned)
      (sameClosing : storedClosing.unspanned = closing.unspanned)
      (inside : Kept (insideType || component.isType) inner storedInner)
      (later : Kept insideType rest storedRest) :
      Kept insideType (enclose opening inner closing ++ rest)
        (enclose storedOpening storedInner storedClosing ++ storedRest)
  | constantField {field opening closing ending : Token} {values behind rest : List Token}
      {storedField storedOpening value storedClosing storedEnding kept : Token}
      {storedBehind storedRest : List Token}
      (isField : storedField.signal = .beginField) (constant : storedField.isConstant = true)
      (opens : storedOpening.signal = .beginEnum) (isValue : value.signal = .validValue)
      (closes : storedClosing.signal = .endEnum)
      (named : storedClosing.name = storedOpening.name)
      (endsField : storedEnding.signal = .endField)
      (fieldNamed : storedEnding.name = storedField.name)
      (within : ∀ token ∈ values, token.signal ≠ .endEnum)
      (referred : refersTo (valueReference storedField) value.name = true)
      (sameField : storedField.unspanned = field.unspanned)
      (sameOpening : storedOpening.unspanned = opening.emptied.unspanned)
      (sameValue : value.unspanned = kept.emptied.fixed.unspanned)
      (sameClosing : storedClosing.unspanned = closing.emptied.unspanned)
      (sameEnding : storedEnding.unspanned = ending.unspanned)
      (inside : Kept false behind storedBehind) (later : Kept false rest storedRest) :
      Kept false (enclose field (enclose opening values closing ++ behind) ending ++ rest)
        (enclose storedField (enclose storedOpening [value] storedClosing ++ storedBehind)
          storedEnding ++ storedRest)

/-! ### Where stored tokens come from -/

/-- The first token of a reduced list is that of the list itself, reduced on its own, or it is a
constant field in front of an enum that was reduced to one value. -/
theorem reduceConstants_eq_cons {index : Nat} {tokens later : List Token} {first : Token}
    (accepted : reduceConstants index tokens = .ok (first :: later)) :
    (∃ token rest, tokens = token :: rest ∧ wrapsConstantEnum token rest = false ∧
      first = emptiedConstant token ∧ reduceConstants (index + 1) rest = .ok later) ∨
    (∃ (opening closing kept : Token) (values after laterRest : List Token) (laterIndex : Nat),
      tokens = first :: opening :: (values ++ closing :: after) ∧
        wrapsConstantEnum first (opening :: (values ++ closing :: after)) = true ∧
        (∀ token ∈ values, token.signal ≠ .endEnum) ∧ closing.signal = .endEnum ∧
        refersTo (valueReference first) kept.name = true ∧
        later = opening.emptied :: kept.emptied.fixed :: closing.emptied :: laterRest ∧
        reduceConstants laterIndex after = .ok laterRest) := by
  cases tokens with
  | nil => simp [reduceConstants] at accepted
  | cons token rest =>
      cases wraps : wrapsConstantEnum token rest with
      | false =>
          rw [reduceConstants_cons wraps] at accepted
          cases acceptedLater : reduceConstants (index + 1) rest with
          | error problem =>
              rw [acceptedLater] at accepted
              cases accepted
          | ok laterRest =>
              rw [acceptedLater] at accepted
              cases accepted
              exact .inl ⟨token, rest, rfl, wraps, rfl, acceptedLater⟩
      | true =>
          rw [reduceConstants.eq_def] at accepted
          simp only [wraps, if_true] at accepted
          split at accepted
          · simp [wrapsConstantEnum] at wraps
          rename_i opening body
          split at accepted
          · cases accepted
          rename_i closing after ending
          split at accepted
          · cases accepted
          rename_i kept isKept
          obtain ⟨laterRest, acceptedLater, accepted⟩ := ok_of_bind accepted
          cases accepted
          have parts : body.takeWhile (·.signal ≠ .endEnum) ++ closing :: after = body := by
            rw [← ending, List.takeWhile_append_dropWhile]
          have named := List.find?_some isKept
          have stops := List.head?_dropWhile_not
            (fun token : Token => decide (token.signal ≠ .endEnum)) body
          rw [ending] at stops
          have within : ∀ token ∈ body.takeWhile (·.signal ≠ .endEnum),
              token.signal ≠ .endEnum := by
            intro token member
            simpa using List.mem_takeWhile_imp member
          rw [← parts] at wraps ⊢
          exact .inr ⟨opening, closing, kept, _, after, laterRest, _, rfl, wraps, within,
            by simpa using stops, named, rfl, acceptedLater⟩

/-- Only an empty list is reduced to one. -/
theorem reduceConstants_eq_nil {index : Nat} {tokens : List Token}
    (accepted : reduceConstants index tokens = .ok []) : tokens = [] := by
  cases tokens with
  | nil => rfl
  | cons token rest =>
      rw [reduceConstants.eq_def] at accepted
      simp only at accepted
      split at accepted
      · split at accepted
        · cases accepted
        split at accepted
        · cases accepted
        split at accepted
        · cases accepted
        · obtain ⟨_, _, accepted⟩ := ok_of_bind accepted
          cases accepted
      · obtain ⟨_, _, accepted⟩ := ok_of_bind accepted
        cases accepted

theorem signal_of_unspanned {first second : Token} (same : first.unspanned = second.unspanned) :
    first.signal = second.signal :=
  (congrArg Token.signal same : first.unspanned.signal = second.unspanned.signal)

/-- A token that is no encoding and no constant field in front of an enum is stored as it is. -/
theorem reduceConstants_eq_cons_of_plain {index : Nat} {tokens later : List Token} {first : Token}
    (accepted : reduceConstants index tokens = .ok (first :: later))
    (noEncoding : first.signal ≠ .encoding) (plain : wrapsConstantEnum first later = false) :
    ∃ rest, tokens = first :: rest ∧ wrapsConstantEnum first rest = false ∧
      reduceConstants (index + 1) rest = .ok later := by
  rcases reduceConstants_eq_cons accepted with ⟨token, rest, rfl, unwrapped, rfl, acceptedLater⟩ |
    ⟨opening, closing, kept, values, after, laterRest, laterIndex, rfl, wraps, _, _, _, rfl, _⟩
  · rw [signal_emptiedConstant] at noEncoding
    rw [emptiedConstant_of_ne noEncoding]
    exact ⟨rest, rfl, unwrapped, acceptedLater⟩
  · -- the enum behind the field is there before and after the reduction
    have same : wrapsConstantEnum first (opening.emptied :: kept.emptied.fixed ::
        closing.emptied :: laterRest) =
        wrapsConstantEnum first (opening :: (values ++ closing :: after)) := rfl
    rw [same, wraps] at plain
    cases plain

theorem isConstant_of_unspanned {first second : Token}
    (same : first.unspanned = second.unspanned) : first.isConstant = second.isConstant :=
  (congrArg Token.isConstant same : first.unspanned.isConstant = second.unspanned.isConstant)

/-- Whether a field wraps a constant enum is a matter of the field and of the signal behind it. -/
theorem wrapsConstantEnum_congr {first second : Token} {inner otherInner : List Token}
    (same : first.unspanned = second.unspanned)
    (sameSignals : inner.map Token.signal = otherInner.map Token.signal) :
    wrapsConstantEnum first inner = wrapsConstantEnum second otherInner := by
  have sameSignal := signal_of_unspanned same
  have sameConstant := isConstant_of_unspanned same
  cases inner with
  | nil =>
      rw [List.map_eq_nil_iff.mp sameSignals.symm]
      simp [wrapsConstantEnum]
  | cons token rest =>
      obtain ⟨other, others, rfl, sameNext, _⟩ := List.map_eq_cons_iff.mp sameSignals.symm
      simp only [wrapsConstantEnum, sameSignal, sameConstant, sameNext]

/-- A token that closes a construct opens no enum. -/
theorem wrapsConstantEnum_append {opening closing : Token} {component : Component}
    (closes : closing.signal.closes? = some component) (inner rest : List Token) :
    wrapsConstantEnum opening (inner ++ closing :: rest) = wrapsConstantEnum opening inner := by
  cases inner with
  | nil =>
      have notEnum : (closing.signal == .beginEnum) = false := by
        generalize closing.signal = signal at closes
        cases signal <;> first | rfl | cases closes
      simp [wrapsConstantEnum, notEnum]
  | cons token others => rfl

theorem ne_encoding_of_opens? {signal : Signal} {component : Component}
    (opens : signal.opens? = some component) : signal ≠ .encoding := by
  rintro rfl
  cases opens

theorem ne_encoding_of_closes? {signal : Signal} {component : Component}
    (closes : signal.closes? = some component) : signal ≠ .encoding := by
  rintro rfl
  cases closes

theorem ne_beginField_of_closes? {signal : Signal} {component : Component}
    (closes : signal.closes? = some component) : signal ≠ .beginField := by
  rintro rfl
  cases closes

theorem signal_of_wrapsConstantEnum {field : Token} {rest : List Token}
    (wraps : wrapsConstantEnum field rest = true) : field.signal = .beginField := by
  simp only [wrapsConstantEnum, Bool.and_eq_true, beq_iff_eq] at wraps
  exact wraps.1.1

/-- A constant field in front of an enum is stored in front of the one value that it refers to. -/
theorem reduceConstants_eq_constantEnum {index : Nat} {tokens later : List Token}
    {field opening value closing : Token}
    (accepted : reduceConstants index tokens = .ok (field :: opening :: value :: closing :: later))
    (isField : field.signal = .beginField) (constant : field.isConstant = true)
    (opens : opening.signal = .beginEnum) :
    ∃ (sourceOpening sourceClosing kept : Token) (values after : List Token) (laterIndex : Nat),
      tokens = field :: sourceOpening :: (values ++ sourceClosing :: after) ∧
        (∀ token ∈ values, token.signal ≠ .endEnum) ∧
        refersTo (valueReference field) kept.name = true ∧ opening = sourceOpening.emptied ∧
        value = kept.emptied.fixed ∧ closing = sourceClosing.emptied ∧
        reduceConstants laterIndex after = .ok later := by
  rcases reduceConstants_eq_cons accepted with ⟨token, rest, rfl, plain, isEmptied, acceptedLater⟩ |
    ⟨sourceOpening, sourceClosing, kept, values, after, laterRest, laterIndex, rfl, _, within, _,
      named, isLater, acceptedLater⟩
  · -- on its own the field would stand in front of no enum, but the stored one does
    have tokenSignal : token.signal = .beginField := by
      rw [← signal_emptiedConstant, ← isEmptied, isField]
    have tokenConstant : token.isConstant = true := by
      rw [isEmptied, emptiedConstant_of_ne (by rw [tokenSignal]; decide)] at constant
      exact constant
    rcases reduceConstants_eq_cons acceptedLater with ⟨next, others, rfl, _, rfl, _⟩ |
      ⟨_, _, _, _, _, _, _, _, wraps, _⟩
    · rw [signal_emptiedConstant] at opens
      simp [wrapsConstantEnum, tokenSignal, tokenConstant, opens] at plain
    · rw [signal_of_wrapsConstantEnum wraps] at opens
      cases opens
  · cases isLater
    exact ⟨sourceOpening, sourceClosing, kept, values, after, laterIndex, rfl, within, named, rfl,
      rfl, rfl, acceptedLater⟩

/-- Where some tokens begin what was reduced, they were kept of tokens that begin what it was
reduced from. -/
def KeptFrom (insideType : Bool) (stored : List Token) : Prop :=
  ∀ index tokens reduced tail, reduceConstants index tokens = .ok (reduced ++ tail) →
    stored.map Token.unspanned = reduced.map Token.unspanned →
    ∃ front back backIndex, tokens = front ++ back ∧ Kept insideType front stored ∧
      reduceConstants backIndex back = .ok tail

namespace KeptFrom

theorem nil {insideType : Bool} : KeptFrom insideType [] := by
  intro index tokens reduced tail accepted same
  cases List.map_eq_nil_iff.mp same.symm
  exact ⟨[], tokens, index, rfl, .nil, accepted⟩

theorem leaf {insideType : Bool} {token : Token} {rest : List Token}
    (opensNothing : token.signal.opens? = none) (closesNothing : token.signal.closes? = none)
    (later : KeptFrom insideType rest) : KeptFrom insideType (token :: rest) := by
  intro index tokens reduced tail accepted same
  obtain ⟨first, others, rfl, sameFirst, sameOthers⟩ := List.map_eq_cons_iff.mp same.symm
  rcases reduceConstants_eq_cons accepted with
    ⟨source, sourceRest, rfl, _, rfl, acceptedLater⟩ |
    ⟨opening, closing, kept, values, after, laterRest, laterIndex, rfl, wraps, _⟩
  · obtain ⟨front, back, backIndex, rfl, kept, acceptedBack⟩ :=
      later _ _ _ _ acceptedLater sameOthers.symm
    exact ⟨source :: front, back, backIndex, rfl,
      .leaf opensNothing closesNothing sameFirst.symm kept, acceptedBack⟩
  · rw [← signal_of_unspanned sameFirst, signal_of_wrapsConstantEnum wraps] at opensNothing
    cases opensNothing

theorem construct {insideType : Bool} {component : Component} {opening closing : Token}
    {inner rest : List Token} (opens : opening.signal.opens? = some component)
    (closes : closing.signal.closes? = some component) (noMessage : component ≠ .message)
    (named : closing.name = opening.name) (plain : wrapsConstantEnum opening inner = false)
    (inside : KeptFrom (insideType || component.isType) inner) (later : KeptFrom insideType rest) :
    KeptFrom insideType (enclose opening inner closing ++ rest) := by
  intro index tokens reduced tail accepted same
  obtain ⟨firstOpening, firstInner, firstClosing, firstRest, rfl, sameOpening, sameInner,
    sameClosing, sameRest⟩ := enclose_of_map_eq same.symm
  have firstOpens := opens
  have firstCloses := closes
  rw [← signal_of_unspanned sameOpening] at firstOpens
  rw [← signal_of_unspanned sameClosing] at firstCloses
  have regroup : enclose firstOpening firstInner firstClosing ++ firstRest ++ tail =
      firstOpening :: (firstInner ++ (firstClosing :: (firstRest ++ tail))) := by
    simp [enclose]
  rw [regroup] at accepted
  have firstPlain : wrapsConstantEnum firstOpening
      (firstInner ++ firstClosing :: (firstRest ++ tail)) = false := by
    rw [wrapsConstantEnum_append firstCloses,
      wrapsConstantEnum_congr sameOpening (map_signal_of_unspanned sameInner), plain]
  obtain ⟨behind, rfl, _, acceptedBehind⟩ := reduceConstants_eq_cons_of_plain accepted
    (ne_encoding_of_opens? firstOpens) firstPlain
  obtain ⟨innerFront, innerBack, backIndex, rfl, keptInner, acceptedBack⟩ :=
    inside _ _ _ _ acceptedBehind sameInner.symm
  obtain ⟨afterClosing, rfl, _, acceptedAfter⟩ := reduceConstants_eq_cons_of_plain acceptedBack
    (ne_encoding_of_closes? firstCloses)
    (wrapsConstantEnum_of_ne (ne_beginField_of_closes? firstCloses) _)
  obtain ⟨front, back, lastIndex, rfl, keptRest, acceptedLast⟩ :=
    later _ _ _ _ acceptedAfter sameRest.symm
  refine ⟨enclose firstOpening innerFront firstClosing ++ front, back, lastIndex, ?_,
    .construct opens closes noMessage named plain sameOpening.symm sameClosing.symm keptInner
      keptRest, acceptedLast⟩
  simp [enclose]

theorem constantField {field opening value closing ending : Token} {behind rest : List Token}
    (isField : field.signal = .beginField) (constant : field.isConstant = true)
    (opens : opening.signal = .beginEnum) (isValue : value.signal = .validValue)
    (closes : closing.signal = .endEnum) (named : closing.name = opening.name)
    (endsField : ending.signal = .endField) (fieldNamed : ending.name = field.name)
    (inside : KeptFrom false behind) (later : KeptFrom false rest) :
    KeptFrom false
      (enclose field (enclose opening [value] closing ++ behind) ending ++ rest) := by
  intro index tokens reduced tail accepted same
  obtain ⟨firstField, firstInner, firstEnding, firstRest, rfl, sameField, sameInner,
    sameEnding, sameRest⟩ := enclose_of_map_eq same.symm
  obtain ⟨firstOpening, firstValues, firstClosing, firstBehind, rfl, sameOpening, sameValues,
    sameClosing, sameBehind⟩ := enclose_of_map_eq sameInner
  obtain ⟨firstValue, rfl, sameValue⟩ := List.map_eq_singleton_iff.mp sameValues
  have regroup : enclose firstField (enclose firstOpening [firstValue] firstClosing ++
      firstBehind) firstEnding ++ firstRest ++ tail =
      firstField :: firstOpening :: firstValue :: firstClosing ::
        (firstBehind ++ (firstEnding :: (firstRest ++ tail))) := by
    simp [enclose]
  rw [regroup] at accepted
  have firstIsField := isField
  have firstConstant := constant
  have firstOpens := opens
  have firstEnds := endsField
  rw [← signal_of_unspanned sameField] at firstIsField
  rw [← isConstant_of_unspanned sameField] at firstConstant
  rw [← signal_of_unspanned sameOpening] at firstOpens
  rw [← signal_of_unspanned sameEnding] at firstEnds
  obtain ⟨sourceOpening, sourceClosing, kept, values, after, laterIndex, rfl, within, refers,
    rfl, rfl, rfl, acceptedLater⟩ :=
    reduceConstants_eq_constantEnum accepted firstIsField firstConstant firstOpens
  obtain ⟨innerFront, innerBack, backIndex, rfl, keptBehind, acceptedBack⟩ :=
    inside _ _ _ _ acceptedLater sameBehind.symm
  obtain ⟨afterEnding, rfl, _, acceptedAfter⟩ := reduceConstants_eq_cons_of_plain acceptedBack
    (by rw [firstEnds]; decide)
    (wrapsConstantEnum_of_ne (by rw [firstEnds]; decide) _)
  obtain ⟨front, back, lastIndex, rfl, keptRest, acceptedLast⟩ :=
    later _ _ _ _ acceptedAfter sameRest.symm
  have referred : refersTo (valueReference field) value.name = true := by
    have sameReference : valueReference firstField = valueReference field :=
      (congrArg valueReference sameField :
        valueReference firstField.unspanned = valueReference field.unspanned)
    have sameName : kept.name = value.name :=
      (congrArg Token.name sameValue :
        kept.emptied.fixed.unspanned.name = value.unspanned.name)
    rwa [← sameReference, ← sameName]
  refine ⟨enclose firstField (enclose sourceOpening values sourceClosing ++ innerFront)
    firstEnding ++ front, back, lastIndex, ?_, .constantField isField constant opens isValue
      closes named endsField fieldNamed within referred sameField.symm sameOpening.symm
      sameValue.symm sameClosing.symm sameEnding.symm keptBehind keptRest, acceptedLast⟩
  simp [enclose]

end KeptFrom

/-- Shaped tokens come from tokens that they were kept of. -/
theorem Shaped.keptFrom {insideType : Bool} {stored : List Token}
    (shaped : Shaped insideType stored) : KeptFrom insideType stored := by
  induction shaped with
  | nil => exact .nil
  | leaf opensNothing closesNothing _ ih => exact .leaf opensNothing closesNothing ih
  | construct opens closes noMessage named plain _ _ ihInside ihLater =>
      exact .construct opens closes noMessage named plain ihInside ihLater
  | constantField isField constant opens isValue closes named endsField fieldNamed _ _ ihInside
      ihLater =>
      exact .constantField isField constant opens isValue closes named endsField fieldNamed
        ihInside ihLater

/-- The tokens of a message whose stored form is a message around shaped tokens. -/
theorem keptMessage_of_reduceConstants {tokens reduced body : List Token} {opening closing : Token}
    (accepted : reduceConstants 0 tokens = .ok reduced)
    (same : (enclose opening body closing).map Token.unspanned = reduced.map Token.unspanned)
    (opens : opening.signal = .beginMessage) (closes : closing.signal = .endMessage)
    (shaped : Shaped false body) :
    ∃ sourceOpening sourceBody sourceClosing,
      tokens = enclose sourceOpening sourceBody sourceClosing ∧
        opening.unspanned = sourceOpening.unspanned ∧
        closing.unspanned = sourceClosing.unspanned ∧ Kept false sourceBody body := by
  have whole : reduced.map Token.unspanned =
      (enclose opening body closing ++ []).map Token.unspanned := by
    rw [List.append_nil, same]
  obtain ⟨firstOpening, firstBody, firstClosing, rest, rfl, sameOpening, sameBody, sameClosing,
    noRest⟩ := enclose_of_map_eq whole
  cases List.map_eq_nil_iff.mp noRest
  rw [← signal_of_unspanned sameOpening] at opens
  rw [← signal_of_unspanned sameClosing] at closes
  rw [List.append_nil] at accepted
  obtain ⟨behind, rfl, _, acceptedBehind⟩ := reduceConstants_eq_cons_of_plain accepted
    (by rw [opens]; decide) (wrapsConstantEnum_of_ne (by rw [opens]; decide) _)
  obtain ⟨front, back, backIndex, rfl, kept, acceptedBack⟩ :=
    shaped.keptFrom _ _ _ _ acceptedBehind sameBody.symm
  obtain ⟨after, rfl, _, acceptedAfter⟩ := reduceConstants_eq_cons_of_plain acceptedBack
    (by rw [closes]; decide) (wrapsConstantEnum_of_ne (by rw [closes]; decide) _)
  cases reduceConstants_eq_nil acceptedAfter
  exact ⟨firstOpening, front, firstClosing, rfl, sameOpening.symm, sameClosing.symm, kept⟩

end WireSchema
