/-
Module: WireSchema.Proofs.NestedTokens
Purpose: `Nested` says of a list of tokens that its constructs do not interleave, that both ends of
  each carry one name, and that none of them is a message.  `Shaped` asks two things more, both of
  the enums that constant fields wrap: such an enum holds a single value, and it stands in a block
  rather than within another type.
Main exports: WithinMessage, Nested, Shaped, MeasuresTo.respan, unspanned_withSpans
-/
import WireSchema.Proofs.ConstructNesting
import WireSchema.Schema.ConstantEnum

namespace WireSchema

/-!
Measuring looks at nothing but the signals (`MeasuresTo.respan`) and changes nothing but the spans
(`unspanned_withSpans`).
-/

/-- Whether the constructs of a component are types. -/
def Component.isType : Component → Bool
  | .composite | .enumeration | .set => true
  | .message | .field | .group | .varData => false

/-- A construct that is no message, with one name on both of its ends. -/
structure WithinMessage (opening : Token) (inner : List Token) (closing : Token) : Prop where
  noMessage : opening.signal.opens? ≠ some .message
  named : closing.name = opening.name

theorem WithinMessage.of_opens {component : Component} {opening closing : Token}
    {inner : List Token} (opens : opening.signal.opens? = some component)
    (noMessage : component ≠ .message) (named : closing.name = opening.name) :
    WithinMessage opening inner closing where
  noMessage isMessage := noMessage (Option.some.inj (opens.symm.trans isMessage))
  named := named

/-- A sequence of leaves and nested constructs other than messages, each with one name on both of
its ends. -/
abbrev Nested : List Token → Prop :=
  Nests WithinMessage

/-- A nested sequence in which the enum of a constant field holds a single value and stands within
no type.  The flag tells whether the sequence itself stands within a type. -/
inductive Shaped : Bool → List Token → Prop where
  | nil {insideType : Bool} : Shaped insideType []
  | leaf {insideType : Bool} {token : Token} {rest : List Token}
      (opensNothing : token.signal.opens? = none) (closesNothing : token.signal.closes? = none)
      (later : Shaped insideType rest) : Shaped insideType (token :: rest)
  | construct {insideType : Bool} {component : Component} {opening closing : Token}
      {inner rest : List Token} (opens : opening.signal.opens? = some component)
      (closes : closing.signal.closes? = some component) (noMessage : component ≠ .message)
      (named : closing.name = opening.name) (plain : wrapsConstantEnum opening inner = false)
      (inside : Shaped (insideType || component.isType) inner) (later : Shaped insideType rest) :
      Shaped insideType (enclose opening inner closing ++ rest)
  | constantField {field opening value closing ending : Token} {behind rest : List Token}
      (isField : field.signal = .beginField) (constant : field.isConstant = true)
      (opens : opening.signal = .beginEnum) (isValue : value.signal = .validValue)
      (closes : closing.signal = .endEnum) (named : closing.name = opening.name)
      (endsField : ending.signal = .endField) (fieldNamed : ending.name = field.name)
      (inside : Shaped false behind) (later : Shaped false rest) :
      Shaped false (enclose field (enclose opening [value] closing ++ behind) ending ++ rest)

/-- An enum of a single value. -/
theorem Nested.singleEnum {opening value closing : Token} {rest : List Token}
    (opens : opening.signal = .beginEnum) (isValue : value.signal = .validValue)
    (closes : closing.signal = .endEnum) (named : closing.name = opening.name)
    (later : Nested rest) : Nested (enclose opening [value] closing ++ rest) := by
  have opensEnum : opening.signal.opens? = some .enumeration := congrArg Signal.opens? opens
  have closesEnum : closing.signal.closes? = some .enumeration := congrArg Signal.closes? closes
  have single : Nested [value] :=
    .leaf ⟨congrArg Signal.opens? isValue, congrArg Signal.closes? isValue⟩ .nil
  exact .construct opensEnum closesEnum (.of_opens opensEnum (by decide) named) single later

/-- A field around an enum of a single value. -/
theorem Nested.constantField {field opening value closing ending : Token}
    {behind rest : List Token} (isField : field.signal = .beginField)
    (opens : opening.signal = .beginEnum) (isValue : value.signal = .validValue)
    (closes : closing.signal = .endEnum) (named : closing.name = opening.name)
    (endsField : ending.signal = .endField) (fieldNamed : ending.name = field.name)
    (inside : Nested behind) (later : Nested rest) :
    Nested (enclose field (enclose opening [value] closing ++ behind) ending ++ rest) := by
  have opensField : field.signal.opens? = some .field := congrArg Signal.opens? isField
  have closesField : ending.signal.closes? = some .field := congrArg Signal.closes? endsField
  exact .construct opensField closesField (.of_opens opensField (by decide) fieldNamed)
    (Nested.singleEnum opens isValue closes named inside) later

theorem Shaped.nested {insideType : Bool} {tokens : List Token}
    (shaped : Shaped insideType tokens) : Nested tokens := by
  induction shaped with
  | nil => exact .nil
  | leaf opensNothing closesNothing _ ih => exact .leaf ⟨opensNothing, closesNothing⟩ ih
  | construct opens closes noMessage named _ _ _ ihInside ihLater =>
      exact .construct opens closes (.of_opens opens noMessage named) ihInside ihLater
  | @constantField field opening value closing ending behind rest isField constant opens isValue
      closes named endsField fieldNamed inside later ihInside ihLater =>
      exact Nested.constantField isField opens isValue closes named endsField fieldNamed ihInside
        ihLater

/-! ### All but the spans -/

/-- The token as if it had never been measured. -/
def Token.unspanned (token : Token) : Token :=
  token.withSpan 1

/-- A list that is like an enclosed one in some respect is enclosed likewise. -/
theorem enclose_of_map_eq {α : Type} {aspect : Token → α} {others inner rest : List Token}
    {opening closing : Token}
    (same : others.map aspect = (enclose opening inner closing ++ rest).map aspect) :
    ∃ otherOpening otherInner otherClosing otherRest,
      others = enclose otherOpening otherInner otherClosing ++ otherRest ∧
        aspect otherOpening = aspect opening ∧ otherInner.map aspect = inner.map aspect ∧
        aspect otherClosing = aspect closing ∧ otherRest.map aspect = rest.map aspect := by
  simp only [enclose, List.cons_append, List.append_assoc, List.map_cons, List.map_append,
    List.nil_append] at same
  obtain ⟨otherOpening, behind, rfl, sameOpening, same⟩ := List.map_eq_cons_iff.mp same
  obtain ⟨otherInner, behindInner, rfl, sameInner, same⟩ := List.map_eq_append_iff.mp same
  obtain ⟨otherClosing, otherRest, rfl, sameClosing, sameRest⟩ := List.map_eq_cons_iff.mp same
  refine ⟨otherOpening, otherInner, otherClosing, otherRest, ?_, sameOpening, sameInner,
    sameClosing, sameRest⟩
  simp [enclose]

/-- The token with the span of a measured one, if it opens or closes a construct. -/
def Token.respan (token measured : Token) : Token :=
  if token.signal.opens? = none ∧ token.signal.closes? = none then token
  else token.withSpan measured.storedSpan

theorem Token.respan_leaf {token : Token} (measured : Token)
    (opensNothing : token.signal.opens? = none) (closesNothing : token.signal.closes? = none) :
    token.respan measured = token :=
  if_pos ⟨opensNothing, closesNothing⟩

theorem Token.respan_opening {token : Token} {component : Component} (measured : Token)
    (opens : token.signal.opens? = some component) :
    token.respan measured = token.withSpan measured.storedSpan :=
  if_neg fun leaf => by cases opens.symm.trans leaf.1

theorem Token.respan_closing {token : Token} {component : Component} (measured : Token)
    (closes : token.signal.closes? = some component) :
    token.respan measured = token.withSpan measured.storedSpan :=
  if_neg fun leaf => by cases closes.symm.trans leaf.2

/-- Tokens with the same signals are measured alike. -/
theorem MeasuresTo.respan {tokens measured others : List Token}
    (measures : MeasuresTo tokens measured)
    (same : others.map Token.signal = tokens.map Token.signal) :
    MeasuresTo others (others.zipWith Token.respan measured) := by
  induction measures generalizing others with
  | nil =>
      cases List.map_eq_nil_iff.mp same
      exact .nil
  | leaf opensNothing closesNothing _ ih =>
      obtain ⟨other, rest, rfl, sameSignal, sameRest⟩ := List.map_eq_cons_iff.mp same
      rw [← sameSignal] at opensNothing closesNothing
      rw [List.zipWith_cons_cons, Token.respan_leaf _ opensNothing closesNothing]
      exact .leaf opensNothing closesNothing (ih sameRest)
  | @construct component opening closing inner measuredInner rest measuredRest opens closes inside
      later ihInside ihLater =>
      obtain ⟨otherOpening, otherInner, otherClosing, otherRest, rfl, sameOpening, sameInner,
        sameClosing, sameRest⟩ := enclose_of_map_eq same
      rw [← sameOpening] at opens
      rw [← sameClosing] at closes
      have innerLength : otherInner.length = inner.length := by
        simpa using congrArg List.length sameInner
      have sameSpan : enclosedSpan otherInner = enclosedSpan inner := by
        rw [enclosedSpan, enclosedSpan, innerLength]
      have zipped : (enclose otherOpening otherInner otherClosing ++ otherRest).zipWith Token.respan
          (enclose (opening.withSpan (enclosedSpan inner)) measuredInner
            (closing.withSpan (enclosedSpan inner)) ++ measuredRest) =
          enclose (otherOpening.withSpan (enclosedSpan otherInner))
            (otherInner.zipWith Token.respan measuredInner)
            (otherClosing.withSpan (enclosedSpan otherInner)) ++
          otherRest.zipWith Token.respan measuredRest := by
        simp only [enclose, List.cons_append, List.append_assoc, List.nil_append,
          List.zipWith_cons_cons]
        rw [List.zipWith_append (by rw [innerLength, inside.length_eq]), List.zipWith_cons_cons,
          Token.respan_opening _ opens, Token.respan_closing _ closes, sameSpan]
        rfl
      rw [zipped]
      exact .construct opens closes (ihInside sameInner) (ihLater sameRest)

/-- Writing a pair changes nothing but spans. -/
theorem unspanned_writePair (tokens : Array Token) (pair : Nat × Nat) :
    (Pairing.writePair tokens pair).map Token.unspanned = tokens.map Token.unspanned := by
  have modified : ∀ (tokens : Array Token) (index : Nat) (span : Int32),
      (tokens.modify index (Token.withSpan · span)).map Token.unspanned =
        tokens.map Token.unspanned := by
    intro tokens index span
    apply Array.ext
    · simp
    · intro position inside _
      simp only [Array.getElem_map, Array.getElem_modify]
      split <;> rfl
  rw [Pairing.writePair, modified, modified]

/-- What the measuring of spans does when it succeeds. -/
theorem withSpans_eq_ok_iff {tokens measured : List Token} :
    withSpans tokens = .ok measured ↔
      (Pairing.ofTokens tokens).fault = none ∧
        ((Pairing.ofTokens tokens).pairs.foldl Pairing.writePair tokens.toArray).toList =
          measured := by
  simp only [withSpans, measureSpans]
  cases (Pairing.ofTokens tokens).fault with
  | none => simp
  | some problem => simp

/-- Measuring changes nothing but spans. -/
theorem unspanned_withSpans {tokens measured : List Token}
    (isMeasured : withSpans tokens = .ok measured) :
    measured.map Token.unspanned = tokens.map Token.unspanned := by
  have written : ∀ (pairs : List (Nat × Nat)) (tokens : Array Token),
      (pairs.foldl Pairing.writePair tokens).map Token.unspanned = tokens.map Token.unspanned := by
    intro pairs
    induction pairs with
    | nil => exact fun _ => rfl
    | cons pair others ih =>
        intro tokens
        rw [List.foldl_cons, ih, unspanned_writePair]
  obtain ⟨_, rfl⟩ := withSpans_eq_ok_iff.mp isMeasured
  rw [← Array.toList_map, written]
  simp

/-- Tokens that are alike but for their spans have the same signals. -/
theorem map_signal_of_unspanned {first second : List Token}
    (same : first.map Token.unspanned = second.map Token.unspanned) :
    first.map Token.signal = second.map Token.signal := by
  have signals := congrArg (List.map Token.signal) same
  rwa [List.map_map, List.map_map] at signals

/-- Nested tokens that were measured are measured by their nesting. -/
theorem MeasuresTo.of_withSpans {tokens stored measured : List Token}
    (isMeasured : withSpans tokens = .ok stored) (nested : MeasuresTo stored measured) :
    MeasuresTo tokens stored := by
  have same := map_signal_of_unspanned (unspanned_withSpans isMeasured)
  have measures := nested.respan same.symm
  rw [withSpans_of_measuresTo measures] at isMeasured
  cases isMeasured
  exact measures

/-- Measured tokens are measured already. -/
theorem MeasuresTo.again {tokens measured : List Token} (measures : MeasuresTo tokens measured) :
    MeasuresTo measured measured := by
  induction measures with
  | nil => exact .nil
  | leaf opensNothing closesNothing _ ih => exact .leaf opensNothing closesNothing ih
  | @construct component opening closing inner measuredInner rest measuredRest opens closes inside
      later ihInside ihLater =>
      have sameSpan : enclosedSpan measuredInner = enclosedSpan inner := by
        rw [enclosedSpan, enclosedSpan, inside.length_eq]
      have whole : MeasuresTo
          (enclose (opening.withSpan (enclosedSpan inner)) measuredInner
            (closing.withSpan (enclosedSpan inner)) ++ measuredRest)
          (enclose ((opening.withSpan (enclosedSpan inner)).withSpan (enclosedSpan measuredInner))
            measuredInner
            ((closing.withSpan (enclosedSpan inner)).withSpan (enclosedSpan measuredInner)) ++
              measuredRest) := .construct opens closes ihInside ihLater
      rwa [sameSpan] at whole

/-- Measuring again what was measured changes nothing. -/
theorem MeasuresTo.eq_of_withSpans {tokens stored measured : List Token}
    (isMeasured : withSpans tokens = .ok stored) (nested : MeasuresTo stored measured) :
    measured = stored := by
  have again := withSpans_of_measuresTo (nested.of_withSpans isMeasured).again
  rw [withSpans_of_measuresTo nested] at again
  exact Except.ok.inj again

/-! ### Openings and closings in a prefix -/

/-- How many tokens open a component. -/
def openingCount (component : Component) (tokens : List Token) : Nat :=
  tokens.countP fun token => token.signal.opens? == some component

/-- How many tokens close a component. -/
def closingCount (component : Component) (tokens : List Token) : Nat :=
  tokens.countP fun token => token.signal.closes? == some component

theorem openingCount_cons (component : Component) (token : Token) (rest : List Token) :
    openingCount component (token :: rest) =
      openingCount component rest + if token.signal.opens? = some component then 1 else 0 := by
  simp [openingCount, List.countP_cons]

theorem closingCount_cons (component : Component) (token : Token) (rest : List Token) :
    closingCount component (token :: rest) =
      closingCount component rest + if token.signal.closes? = some component then 1 else 0 := by
  simp [closingCount, List.countP_cons]

/-- A token that opens a component closes none. -/
theorem closingCount_cons_opening (component : Component) {token : Token} {opened : Component}
    (opens : token.signal.opens? = some opened) (rest : List Token) :
    closingCount component (token :: rest) = closingCount component rest := by
  have closesNothing : token.signal.closes? = none := by
    generalize token.signal = signal at opens
    cases signal <;> first | rfl | cases opens
  rw [closingCount_cons, closesNothing]
  simp

/-- Taking the partner of a closing token off the open tokens. -/
theorem openingCount_eraseP (component closed : Component) {pending : List (Nat × Token)}
    {partner : Nat × Token}
    (isPartner : pending.find? (fun candidate => candidate.2.signal.opens? == some closed) =
      some partner) :
    openingCount component (pending.map (·.2)) =
      openingCount component
        ((pending.eraseP fun candidate => candidate.2.signal.opens? == some closed).map (·.2)) +
      if some closed = some component then 1 else 0 := by
  induction pending with
  | nil => cases isPartner
  | cons entry rest ih =>
      by_cases belongs : entry.2.signal.opens? = some closed
      · have erased : (entry :: rest).eraseP
            (fun candidate => candidate.2.signal.opens? == some closed) = rest := by
          simp [belongs]
        rw [erased, List.map_cons, openingCount_cons, belongs]
      · have erased : (entry :: rest).eraseP
            (fun candidate => candidate.2.signal.opens? == some closed) =
            entry :: rest.eraseP fun candidate => candidate.2.signal.opens? == some closed := by
          simp [belongs]
        have later : rest.find? (fun candidate => candidate.2.signal.opens? == some closed) =
            some partner := by
          simpa [belongs] using isPartner
        rw [erased, List.map_cons, List.map_cons, openingCount_cons, openingCount_cons, ih later]
        omega

/-- Where the scan meets no fault, the open tokens before the list and the openings in it are as
many as the closings. -/
theorem counts_of_scan (component : Component) (tokens : List Token) (index : Nat)
    (pending : List (Nat × Token)) (noFault : (Pairing.scan index pending tokens).fault = none) :
    openingCount component tokens + openingCount component (pending.map (·.2)) =
      closingCount component tokens := by
  induction tokens generalizing index pending with
  | nil =>
      have empty : pending = [] := by
        simpa [Pairing.scan, Pairing.unclosed] using noFault
      simp [empty, openingCount, closingCount]
  | cons token rest ih =>
      cases opens : token.signal.opens? with
      | some opened =>
          rw [scan_opening opens] at noFault
          have later := ih _ _ noFault
          have front : openingCount component (((index, token) :: pending).map (·.2)) =
              openingCount component (pending.map (·.2)) +
                if token.signal.opens? = some component then 1 else 0 :=
            openingCount_cons component token _
          rw [openingCount_cons, closingCount_cons_opening component opens]
          omega
      | none =>
          rw [openingCount_cons, closingCount_cons, opens]
          cases closes : token.signal.closes? with
          | none =>
              rw [scan_leaf opens closes] at noFault
              simpa using ih _ _ noFault
          | some closed =>
              cases isPartner : pending.find?
                  (fun candidate => candidate.2.signal.opens? == some closed) with
              | none => simp [Pairing.scan, opens, closes, isPartner] at noFault
              | some partner =>
                  have noLater : (Pairing.scan (index + 1) (pending.eraseP fun candidate =>
                      candidate.2.signal.opens? == some closed) rest).fault = none := by
                    simpa [Pairing.scan, opens, closes, isPartner] using noFault
                  have later := ih _ _ noLater
                  rw [openingCount_eraseP component closed isPartner]
                  simp only [reduceCtorEq, if_false]
                  omega

/-- What can be measured has as many openings as closings of each component. -/
theorem counts_of_withSpans {tokens measured : List Token}
    (isMeasured : withSpans tokens = .ok measured) (component : Component) :
    openingCount component tokens = closingCount component tokens := by
  have counts := counts_of_scan component tokens 0 [] (withSpans_eq_ok_iff.mp isMeasured).1
  simpa [openingCount] using counts

theorem openingCount_append (component : Component) (first second : List Token) :
    openingCount component (first ++ second) =
      openingCount component first + openingCount component second :=
  List.countP_append

theorem closingCount_append (component : Component) (first second : List Token) :
    closingCount component (first ++ second) =
      closingCount component first + closingCount component second :=
  List.countP_append

/-- No prefix of a nested list closes more than it opens. -/
theorem MeasuresTo.closingCount_prefix_le {tokens measured : List Token}
    (measures : MeasuresTo tokens measured) (component : Component) {before after : List Token}
    (parts : tokens = before ++ after) :
    closingCount component before ≤ openingCount component before := by
  induction measures generalizing before after with
  | nil =>
      obtain ⟨rfl, _⟩ := List.append_eq_nil_iff.mp parts.symm
      exact Nat.le_refl _
  | leaf opensNothing closesNothing _ ih =>
      rcases List.cons_eq_append_iff.mp parts with ⟨rfl, _⟩ | ⟨others, rfl, laterParts⟩
      · exact Nat.le_refl _
      · have later := ih laterParts
        rw [openingCount_cons, closingCount_cons, opensNothing, closesNothing]
        omega
  | @construct opened opening closing inner measuredInner rest measuredRest opens closes inside
      later ihInside ihLater =>
      have whole := counts_of_withSpans
        (withSpans_of_measuresTo (MeasuresTo.enclosed opens closes inside)) component
      have innerWhole := counts_of_withSpans (withSpans_of_measuresTo inside) component
      rcases List.append_eq_append_iff.mp parts with
        ⟨others, rfl, laterParts⟩ | ⟨others, wholeParts, _⟩
      · have behind := ihLater laterParts
        rw [openingCount_append, closingCount_append]
        omega
      rcases List.cons_eq_append_iff.mp wholeParts with ⟨rfl, _⟩ | ⟨within, rfl, innerParts⟩
      · exact Nat.le_refl _
      rw [openingCount_cons, closingCount_cons_opening component opens]
      rcases List.append_eq_append_iff.mp innerParts with ⟨ends, rfl, endParts⟩ | ⟨ends, front, _⟩
      · rcases List.cons_eq_append_iff.mp endParts with ⟨rfl, _⟩ | ⟨none, rfl, noParts⟩
        · rw [List.append_nil, innerWhole]
          omega
        · obtain ⟨rfl, _⟩ := List.append_eq_nil_iff.mp noParts.symm
          rw [enclose, openingCount_cons, closingCount_cons_opening component opens] at whole
          exact Nat.le_of_eq whole.symm
      · have inFront := ihInside front
        omega

end WireSchema
