/-
Module: WireSchema.Proofs.RecapturedTypes
Purpose: The types that are captured in the stored tokens of a message are those that were captured
  in the message itself, in the same order (`Kept.recaptured`).  Where a type reaches to is found by
  name, and a closing token of the same name further inside would cut it short.  A type cut short
  cannot be measured, so a message in which that happens is not accepted in the first place.
Main exports: CapturesTo, Recaptured, RecapturedAs, Kept.recaptured
-/
import WireSchema.Proofs.ReloadedTokens
import WireSchema.Schema.TypeCapture

namespace WireSchema

/-- Some tokens hold certain types, wherever they stand and whatever follows them. -/
def CapturesTo (tokens : List Token) (types : List (String × List Token)) : Prop :=
  ∀ index extra suffix, captureTypes index (tokens.length + extra) (tokens ++ suffix) =
    (captureTypes (index + tokens.length) extra suffix).map (types ++ ·)

/-- A token that opens no type is passed over. -/
theorem captureTypes_cons_of_none {token : Token} (noType : typeClosing? token.signal = none)
    (index limit : Nat) (rest : List Token) :
    captureTypes index (limit + 1) (token :: rest) = captureTypes (index + 1) limit rest := by
  rw [captureTypes.eq_def]
  simp only [noType]

/-- Nothing is captured among no tokens. -/
theorem captureTypes_zero (index : Nat) (tokens : List Token) :
    captureTypes index 0 tokens = .ok [] := by
  rw [captureTypes.eq_def]

/-- What is found from a token on that opens a type. -/
theorem captureTypes_cons_of_some {token : Token} {closing : Signal}
    (opens : typeClosing? token.signal = some closing) (index limit : Nat) {rest : List Token}
    {distance : Nat} (found : rest.findIdx? (Token.isNamed closing token.name) = some distance) :
    captureTypes index (limit + 1) (token :: rest) =
      ((if token.signal = .beginComposite then captureTypes (index + 1) distance rest
        else .ok []) >>= fun inner =>
        captureTypes (index + distance + 2) (limit - (distance + 1)) (rest.drop (distance + 1)) >>=
          fun later =>
            .ok ((token.name, token :: rest.take (distance + 1)) :: (inner ++ later))) := by
  rw [captureTypes.eq_def]
  simp only [opens, found]
  split <;> rfl

namespace CapturesTo

theorem nil : CapturesTo [] [] := by
  intro index extra suffix
  rw [List.length_nil, Nat.zero_add, List.nil_append, Nat.add_zero]
  cases captureTypes index extra suffix <;> rfl

theorem append {first second : List Token} {types others : List (String × List Token)}
    (one : CapturesTo first types) (other : CapturesTo second others) :
    CapturesTo (first ++ second) (types ++ others) := by
  intro index extra suffix
  rw [List.length_append, Nat.add_assoc, List.append_assoc, one, other, Nat.add_assoc]
  cases captureTypes (index + (first.length + second.length)) extra suffix with
  | error problem => rfl
  | ok later => simp [Except.map]

theorem cons {token : Token} {rest : List Token} {types : List (String × List Token)}
    (noType : typeClosing? token.signal = none) (later : CapturesTo rest types) :
    CapturesTo (token :: rest) types := by
  intro index extra suffix
  have count : (token :: rest).length + extra = rest.length + extra + 1 := by
    rw [List.length_cons]
    omega
  have position : index + 1 + rest.length = index + (token :: rest).length := by
    rw [List.length_cons]
    omega
  rw [count, List.cons_append, captureTypes_cons_of_none noType, later, position]

/-- A type without a token inside that would close it early. -/
theorem type {opening closing : Token} {inner : List Token} {types : List (String × List Token)}
    (opens : typeClosing? opening.signal = some closing.signal)
    (named : closing.name = opening.name)
    (unambiguous : ∀ token ∈ inner, Token.isNamed closing.signal opening.name token = false)
    (searched : opening.signal = .beginComposite → CapturesTo inner types)
    (skipped : opening.signal ≠ .beginComposite → types = []) :
    CapturesTo (enclose opening inner closing)
      ((opening.name, enclose opening inner closing) :: types) := by
  intro index extra suffix
  have found := findIdx?_isNamed unambiguous (Token.isNamed_iff.mpr ⟨rfl, named⟩) suffix
  have regroup :
      enclose opening inner closing ++ suffix = opening :: (inner ++ closing :: suffix) := by
    simp [enclose]
  have count : (enclose opening inner closing).length + extra = inner.length + 1 + extra + 1 := by
    rw [length_enclose]
    omega
  have taken : opening :: (inner ++ closing :: suffix).take (inner.length + 1) =
      enclose opening inner closing := by
    rw [List.take_length_add_append]
    rfl
  have dropped : (inner ++ closing :: suffix).drop (inner.length + 1) = suffix := by
    rw [List.drop_length_add_append]
    rfl
  have remaining : inner.length + 1 + extra - (inner.length + 1) = extra := by omega
  have position : index + inner.length + 2 = index + (enclose opening inner closing).length := by
    rw [length_enclose]
    omega
  have within : (if opening.signal = .beginComposite then
      captureTypes (index + 1) inner.length (inner ++ closing :: suffix) else .ok []) =
      .ok types := by
    split
    · rename_i composite
      have alone := searched composite (index + 1) 0 (closing :: suffix)
      rw [captureTypes_zero] at alone
      exact alone.trans (by simp [Except.map])
    · rename_i other
      rw [skipped other]
  rw [regroup, count, captureTypes_cons_of_some opens _ _ found, within, remaining, dropped, taken,
    position]
  cases captureTypes (index + (enclose opening inner closing).length) extra suffix <;> rfl

theorem alone {tokens : List Token} {types : List (String × List Token)}
    (captures : CapturesTo tokens types) : typesOf tokens = .ok types := by
  have whole := captures 0 0 []
  rw [List.append_nil, captureTypes_zero] at whole
  rw [typesOf]
  exact whole.trans (by simp [Except.map])

end CapturesTo

/-! ### Accepted captures -/

/-- Somewhere the types at the front, which some tokens hold, were found and could be measured. -/
def CaptureAccepted (tokens : List Token) : Prop :=
  ∃ index extra suffix types,
    captureTypes index (tokens.length + extra) (tokens ++ suffix) = .ok types ∧
      ∀ type ∈ types, ∃ measured, withSpans type.2 = .ok measured

namespace CaptureAccepted

theorem front {first second : List Token} (accepted : CaptureAccepted (first ++ second)) :
    CaptureAccepted first := by
  obtain ⟨index, extra, suffix, types, isCaptured, measurable⟩ := accepted
  rw [List.length_append, Nat.add_assoc, List.append_assoc] at isCaptured
  exact ⟨index, second.length + extra, second ++ suffix, types, isCaptured, measurable⟩

theorem back {first second : List Token} {types : List (String × List Token)}
    (captures : CapturesTo first types) (accepted : CaptureAccepted (first ++ second)) :
    CaptureAccepted second := by
  obtain ⟨index, extra, suffix, all, isCaptured, measurable⟩ := accepted
  rw [List.length_append, Nat.add_assoc, List.append_assoc, captures] at isCaptured
  obtain ⟨later, isLater, rfl⟩ := ok_of_map isCaptured
  exact ⟨index + first.length, extra, suffix, later, isLater,
    fun type member => measurable type (List.mem_append_right _ member)⟩

theorem tail {token : Token} {rest : List Token} (noType : typeClosing? token.signal = none)
    (accepted : CaptureAccepted (token :: rest)) : CaptureAccepted rest := by
  have alone : CapturesTo [token] [] := .cons noType .nil
  exact back alone accepted

/-- What is accepted with a type: the type found by name, and what is searched inside. -/
theorem type {opening closing : Token} {inner : List Token}
    (accepted : CaptureAccepted (enclose opening inner closing))
    (opens : typeClosing? opening.signal = some closing.signal) :
    ∃ suffix distance,
      (inner ++ closing :: suffix).findIdx? (Token.isNamed closing.signal opening.name) =
          some distance ∧
        (∃ measured,
          withSpans (opening :: (inner ++ closing :: suffix).take (distance + 1)) =
            .ok measured) ∧
        (opening.signal = .beginComposite → distance = inner.length → CaptureAccepted inner) := by
  obtain ⟨index, extra, suffix, all, isCaptured, measurable⟩ := accepted
  have count : (enclose opening inner closing).length + extra = inner.length + 1 + extra + 1 := by
    rw [length_enclose]
    omega
  have regroup : enclose opening inner closing ++ suffix =
      opening :: (inner ++ closing :: suffix) := by
    simp [enclose]
  rw [count, regroup] at isCaptured
  cases found : (inner ++ closing :: suffix).findIdx?
      (Token.isNamed closing.signal opening.name) with
  | none =>
      rw [captureTypes.eq_def] at isCaptured
      simp only [opens, found] at isCaptured
      cases isCaptured
  | some distance =>
      rw [captureTypes_cons_of_some opens _ _ found] at isCaptured
      obtain ⟨types, isInner, isCaptured⟩ := ok_of_bind isCaptured
      obtain ⟨later, isLater, isCaptured⟩ := ok_of_bind isCaptured
      cases isCaptured
      refine ⟨suffix, distance, found, measurable _ List.mem_cons_self, fun composite whole => ?_⟩
      rw [if_pos composite, whole] at isInner
      exact ⟨index + 1, 0, closing :: suffix, types, isInner, fun type member =>
        measurable type (List.mem_cons_of_mem _ (List.mem_append_left _ member))⟩

end CaptureAccepted

/-- A type that is closed early could not be measured, so an accepted one is closed where it
ends. -/
theorem CaptureAccepted.unambiguous {opening closing : Token} {component : Component}
    {inner measuredInner : List Token}
    (accepted : CaptureAccepted (enclose opening inner closing))
    (opens : opening.signal.opens? = some component)
    (typeOpens : typeClosing? opening.signal = some closing.signal)
    (named : closing.name = opening.name) (nested : MeasuresTo inner measuredInner) :
    (∀ token ∈ inner, Token.isNamed closing.signal opening.name token = false) ∧
      (opening.signal = .beginComposite → CaptureAccepted inner) := by
  obtain ⟨suffix, distance, found, ⟨measured, isMeasured⟩, searched⟩ := accepted.type typeOpens
  rw [List.findIdx?_append] at found
  cases early : inner.findIdx? (Token.isNamed closing.signal opening.name) with
  | none =>
      rw [early, Option.none_or, List.findIdx?_cons] at found
      simp only [Token.isNamed, named, beq_self_eq_true, Bool.and_self, if_true, Option.map_some,
        Nat.zero_add, Option.some_inj] at found
      exact ⟨List.findIdx?_eq_none_iff.mp early, fun composite => searched composite found.symm⟩
  | some position =>
      rw [early, Option.some_or, Option.some_inj] at found
      have inside : distance < inner.length := by
        rw [← found]
        exact (List.findIdx?_eq_some_iff_getElem.mp early).1
      have cut : (inner ++ closing :: suffix).take (distance + 1) = inner.take (distance + 1) :=
        List.take_append_of_le_length (by omega)
      rw [cut] at isMeasured
      -- what is cut short opens the component once more than it closes it
      have counts := counts_of_withSpans isMeasured component
      have front := nested.closingCount_prefix_le component
        (List.take_append_drop (distance + 1) inner).symm
      rw [openingCount_cons, closingCount_cons_opening component opens, if_pos opens] at counts
      omega

/-! ### The types of what is kept -/

theorem typeClosing?_of_opens? {opening closing : Signal} {component : Component}
    (opens : opening.opens? = some component) (closes : closing.closes? = some component)
    (isType : component.isType = true) : typeClosing? opening = some closing := by
  rw [Signal.opens?_eq_some_iff] at opens
  rw [Signal.closes?_eq_some_iff] at closes
  subst opens closes
  cases component <;> first | rfl | cases isType

theorem typeClosing?_of_not_isType {opening : Signal} {component : Component}
    (opens : opening.opens? = some component) (noType : component.isType = false) :
    typeClosing? opening = none := by
  rw [Signal.opens?_eq_some_iff] at opens
  subst opens
  cases component <;> first | rfl | cases noType

theorem typeClosing?_of_opens?_eq_none {signal : Signal} (opensNothing : signal.opens? = none) :
    typeClosing? signal = none := by
  cases signal <;> first | rfl | cases opensNothing

theorem name_of_unspanned {first second : Token} (same : first.unspanned = second.unspanned) :
    first.name = second.name :=
  (congrArg Token.name same : first.unspanned.name = second.unspanned.name)

theorem name_emptiedConstant (token : Token) : (emptiedConstant token).name = token.name := by
  unfold emptiedConstant
  split <;> rfl

theorem Kept.nested {insideType : Bool} {tokens stored : List Token}
    (kept : Kept insideType tokens stored) : Nested stored := by
  induction kept with
  | nil => exact .nil
  | leaf opensNothing closesNothing _ _ ih => exact .leaf ⟨opensNothing, closesNothing⟩ ih
  | construct opens closes noMessage named _ _ _ _ _ ihInside ihLater =>
      exact .construct opens closes (.of_opens opens noMessage named) ihInside ihLater
  | @constantField field opening closing ending values behind rest storedField storedOpening value
      storedClosing storedEnding kept storedBehind storedRest isField constant opens isValue closes
      named endsField fieldNamed within referred sameField sameOpening sameValue sameClosing
      sameEnding inside later ihInside ihLater =>
      exact Nested.constantField isField opens isValue closes named endsField fieldNamed ihInside
        ihLater

theorem Nested.map_reread {tokens : List Token} (nested : Nested tokens) :
    Nested (tokens.map Token.reread) :=
  nested.map Token.signal_reread fun _ _ _ fits => ⟨fits.noMessage, fits.named⟩

/-- Within a type everything is kept but the lengths of constants. -/
theorem Kept.unspanned_eq {insideType : Bool} {tokens stored : List Token}
    (kept : Kept insideType tokens stored) (isInside : insideType = true) :
    stored.map Token.unspanned = tokens.map fun token => (emptiedConstant token).unspanned := by
  induction kept with
  | nil => rfl
  | leaf _ _ same _ ih => rw [List.map_cons, List.map_cons, same, ih isInside]
  | @construct insideType component opening closing storedOpening storedClosing inner storedInner
      rest storedRest opens closes noMessage named plain sameOpening sameClosing inside later
      ihInside ihLater =>
      have openingEnds : opening.signal ≠ .encoding := by
        rw [← signal_of_unspanned sameOpening]
        exact ne_encoding_of_opens? opens
      have closingEnds : closing.signal ≠ .encoding := by
        rw [← signal_of_unspanned sameClosing]
        exact ne_encoding_of_closes? closes
      have inner := ihInside (by rw [isInside]; rfl)
      have rest := ihLater isInside
      simp only [enclose, List.cons_append, List.append_assoc, List.nil_append, List.map_cons,
        List.map_append, sameOpening, sameClosing, inner, rest, emptiedConstant_of_ne openingEnds,
        emptiedConstant_of_ne closingEnds]
  | constantField => cases isInside

/-- The same after the tokens were read back. -/
theorem Kept.reread_unspanned_eq {tokens stored : List Token} (kept : Kept true tokens stored) :
    (stored.map Token.reread).map Token.unspanned =
      tokens.map fun token => (emptiedConstant token).canonical.unspanned := by
  have values := congrArg (List.map Token.canonical) (kept.unspanned_eq rfl)
  rw [List.map_map, List.map_map] at values
  rw [List.map_map]
  exact values

/-- What is named otherwise within a type is stored under another name. -/
theorem Kept.isNamed_reread {tokens stored : List Token} (kept : Kept true tokens stored)
    {signal : Signal} {name : String}
    (unnamed : ∀ token ∈ tokens, Token.isNamed signal name token = false) :
    ∀ token ∈ stored.map Token.reread, Token.isNamed signal name token = false := by
  rw [List.forall_mem_map]
  intro token isStored
  have alike : token.unspanned ∈ stored.map Token.unspanned := List.mem_map_of_mem isStored
  rw [kept.unspanned_eq rfl] at alike
  obtain ⟨source, isSource, same⟩ := List.mem_map.mp alike
  have sameSignal := signal_of_unspanned same
  have sameName := name_of_unspanned same
  rw [signal_emptiedConstant] at sameSignal
  rw [name_emptiedConstant] at sameName
  have notNamed := unnamed source isSource
  rw [Token.isNamed] at notNamed ⊢
  rwa [Token.signal_reread, Token.name_reread, ← sameSignal, ← sameName]

/-- A type and the one that is captured in its place: the same but for a change of its tokens and
for spans, or an enum that was reduced to one value. -/
structure Recaptured (change : Token → Token) (type again : String × List Token) : Prop where
  name : again.1 = type.1
  layout : isReducedEnum again.2 = true ∨
    again.2.map Token.unspanned = type.2.map fun token => (change token).unspanned

/-- A type and the one that is captured in its place among the stored tokens: the same but for the
lengths of constants, for one word that stands for all that are not numbers, and for spans. -/
abbrev RecapturedStored : String × List Token → String × List Token → Prop :=
  Recaptured fun token => (emptiedConstant token).canonical

/-- The types of some tokens, and those of what is kept of them, which nest. -/
def RecapturedAs (tokens stored : List Token) : Prop :=
  ∃ types again, CapturesTo tokens types ∧ CapturesTo (stored.map Token.reread) again ∧
    List.Forall₂ (fun type again => RecapturedStored type again ∧ Nested again.2) types again

namespace RecapturedAs

theorem nil : RecapturedAs [] [] :=
  ⟨[], [], .nil, .nil, .nil⟩

theorem cons {token stored : Token} {rest storedRest : List Token}
    (noType : typeClosing? token.signal = none) (sameSignal : stored.signal = token.signal)
    (later : RecapturedAs rest storedRest) :
    RecapturedAs (token :: rest) (stored :: storedRest) := by
  obtain ⟨types, again, captures, capturesAgain, same⟩ := later
  refine ⟨types, again, captures.cons noType, ?_, same⟩
  rw [List.map_cons]
  exact capturesAgain.cons (by rw [Token.signal_reread, sameSignal, noType])

theorem append {first storedFirst second storedSecond : List Token}
    (one : RecapturedAs first storedFirst) (other : RecapturedAs second storedSecond) :
    RecapturedAs (first ++ second) (storedFirst ++ storedSecond) := by
  obtain ⟨types, again, captures, capturesAgain, same⟩ := one
  obtain ⟨others, othersAgain, othersCaptured, othersCapturedAgain, othersSame⟩ := other
  refine ⟨types ++ others, again ++ othersAgain, captures.append othersCaptured, ?_, ?_⟩
  · rw [List.map_append]
    exact capturesAgain.append othersCapturedAgain
  · exact List.rel_append same othersSame

/-- A type of which everything but the lengths of constants is kept. -/
theorem type {component : Component} {opening closing storedOpening storedClosing : Token}
    {inner storedInner : List Token} (opens : storedOpening.signal.opens? = some component)
    (closes : storedClosing.signal.closes? = some component) (isType : component.isType = true)
    (named : storedClosing.name = storedOpening.name)
    (sameOpening : storedOpening.unspanned = opening.unspanned)
    (sameClosing : storedClosing.unspanned = closing.unspanned)
    (inside : Kept true inner storedInner)
    (unambiguous : ∀ token ∈ inner, Token.isNamed closing.signal opening.name token = false)
    (searched : opening.signal = .beginComposite → RecapturedAs inner storedInner) :
    RecapturedAs (enclose opening inner closing)
      (enclose storedOpening storedInner storedClosing) := by
  have storedCloses := typeClosing?_of_opens? opens closes isType
  have sourceCloses := storedCloses
  have sourceNamed := named
  rw [signal_of_unspanned sameOpening, signal_of_unspanned sameClosing] at sourceCloses
  rw [name_of_unspanned sameOpening, name_of_unspanned sameClosing] at sourceNamed
  have storedUnambiguous : ∀ token ∈ storedInner.map Token.reread,
      Token.isNamed storedClosing.signal storedOpening.name token = false := by
    rw [signal_of_unspanned sameClosing, name_of_unspanned sameOpening]
    exact inside.isNamed_reread unambiguous
  obtain ⟨types, again, captures, capturesAgain, skipped, same⟩ :
      ∃ types again, (opening.signal = .beginComposite → CapturesTo inner types) ∧
        (opening.signal = .beginComposite → CapturesTo (storedInner.map Token.reread) again) ∧
        (opening.signal ≠ .beginComposite → types = [] ∧ again = []) ∧
        List.Forall₂ (fun type again => RecapturedStored type again ∧ Nested again.2) types
          again := by
    by_cases composite : opening.signal = .beginComposite
    · obtain ⟨types, again, captures, capturesAgain, same⟩ := searched composite
      exact ⟨types, again, fun _ => captures, fun _ => capturesAgain,
        fun other => absurd composite other, same⟩
    · exact ⟨[], [], fun yes => absurd yes composite, fun yes => absurd yes composite,
        fun _ => ⟨rfl, rfl⟩, .nil⟩
  rw [← signal_of_unspanned sameOpening] at capturesAgain
  have closesReread : typeClosing? storedOpening.reread.signal =
      some storedClosing.reread.signal := storedCloses
  have capturesStored := CapturesTo.type closesReread named storedUnambiguous capturesAgain
    fun other => (skipped (by rwa [← signal_of_unspanned sameOpening])).2
  rw [← map_reread_enclose] at capturesStored
  have notMessage : component ≠ .message := by
    rintro rfl
    cases isType
  have notField : storedOpening.signal ≠ .beginField := by
    intro isField
    rw [isField] at storedCloses
    cases storedCloses
  have whole : Kept true (enclose opening inner closing ++ [])
      (enclose storedOpening storedInner storedClosing ++ []) :=
    .construct opens closes notMessage named (wrapsConstantEnum_of_ne notField _) sameOpening
      sameClosing inside .nil
  rw [List.append_nil, List.append_nil] at whole
  exact ⟨_, _, CapturesTo.type sourceCloses sourceNamed unambiguous captures
    fun other => (skipped other).1, capturesStored,
    .cons ⟨⟨(name_of_unspanned sameOpening : storedOpening.name = opening.name),
      .inr whole.reread_unspanned_eq⟩, whole.nested.map_reread⟩ same⟩

/-- An enum that was reduced to one value. -/
theorem reducedEnum {opening closing storedOpening value storedClosing kept : Token}
    {values : List Token} (opens : storedOpening.signal = .beginEnum)
    (isValue : value.signal = .validValue) (closes : storedClosing.signal = .endEnum)
    (named : storedClosing.name = storedOpening.name)
    (within : ∀ token ∈ values, token.signal ≠ .endEnum)
    (sameOpening : storedOpening.unspanned = opening.emptied.unspanned)
    (sameValue : value.unspanned = kept.emptied.fixed.unspanned)
    (sameClosing : storedClosing.unspanned = closing.emptied.unspanned) :
    RecapturedAs (enclose opening values closing)
      (enclose storedOpening [value] storedClosing) := by
  have sourceOpens : opening.signal = .beginEnum :=
    (signal_of_unspanned sameOpening).symm.trans opens
  have sourceCloses : closing.signal = .endEnum :=
    (signal_of_unspanned sameClosing).symm.trans closes
  have openingName := name_of_unspanned sameOpening
  have closingName := name_of_unspanned sameClosing
  change storedOpening.name = opening.name at openingName
  change storedClosing.name = closing.name at closingName
  have sourceNamed : closing.name = opening.name := by
    rw [← closingName, named, openingName]
  have captures : CapturesTo (enclose opening values closing)
      [(opening.name, enclose opening values closing)] := by
    refine .type (by rw [sourceOpens, sourceCloses]; rfl) sourceNamed (fun token member => ?_)
      (fun composite => ?_) (fun _ => rfl)
    · rw [Token.isNamed, sourceCloses]
      simp [within token member]
    · rw [sourceOpens] at composite
      cases composite
  have capturesAgain : CapturesTo ((enclose storedOpening [value] storedClosing).map Token.reread)
      [(storedOpening.name, (enclose storedOpening [value] storedClosing).map Token.reread)] := by
    have closesReread : typeClosing? storedOpening.reread.signal =
        some storedClosing.reread.signal := by
      rw [Token.signal_reread, Token.signal_reread, opens, closes]
      rfl
    rw [map_reread_enclose]
    refine .type closesReread named (fun token member => ?_) (fun composite => ?_) (fun _ => rfl)
    · rw [List.mem_singleton.mp member, Token.isNamed, Token.signal_reread, Token.signal_reread,
        isValue, closes]
      rfl
    · rw [Token.signal_reread, opens] at composite
      cases composite
  have constant : value.isConstant = true := by
    rw [isConstant_of_unspanned sameValue]
    rfl
  refine ⟨_, _, captures, capturesAgain, .cons ⟨⟨openingName, .inl ?_⟩, ?_⟩ .nil⟩
  · simp [isReducedEnum, enclose, opens, isValue, constant]
  · have whole := Nested.singleEnum opens isValue closes named .nil
    rw [List.append_nil] at whole
    exact whole.map_reread

end RecapturedAs

/-- What stands behind some tokens is accepted with them. -/
theorem RecapturedAs.behind {first stored second : List Token}
    (recaptured : RecapturedAs first stored) (accepted : CaptureAccepted (first ++ second)) :
    CaptureAccepted second := by
  obtain ⟨types, _, captures, _⟩ := recaptured
  exact accepted.back captures

/-- Within a type the tokens nest like those that are stored for them. -/
theorem Kept.measuresTo_source {tokens stored : List Token} (kept : Kept true tokens stored) :
    ∃ measured, MeasuresTo tokens measured := by
  obtain ⟨measured, measures⟩ := kept.nested.measuresTo
  have same := congrArg (List.map Token.signal) (kept.unspanned_eq rfl)
  rw [List.map_map, List.map_map] at same
  have signals : tokens.map Token.signal = stored.map Token.signal := by
    refine Eq.trans (List.map_congr_left fun token _ => ?_) same.symm
    exact (signal_emptiedConstant token).symm
  exact ⟨_, measures.respan signals⟩

/-- The tokens that are kept hold the types of those that they were kept of. -/
theorem Kept.recaptured {insideType : Bool} {tokens stored : List Token}
    (kept : Kept insideType tokens stored) (accepted : CaptureAccepted tokens) :
    RecapturedAs tokens stored := by
  induction kept with
  | nil => exact .nil
  | @leaf insideType token stored rest storedRest opensNothing closesNothing same later ih =>
      have sameSignal := signal_of_unspanned same
      rw [signal_emptiedConstant] at sameSignal
      have noType := typeClosing?_of_opens?_eq_none opensNothing
      rw [sameSignal] at noType
      exact .cons noType sameSignal (ih (accepted.tail noType))
  | @construct insideType component opening closing storedOpening storedClosing inner storedInner
      rest storedRest opens closes noMessage named plain sameOpening sameClosing inside later
      ihInside ihLater =>
      have sourceOpens := opens
      have sourceCloses := closes
      rw [signal_of_unspanned sameOpening] at sourceOpens
      rw [signal_of_unspanned sameClosing] at sourceCloses
      have whole : RecapturedAs (enclose opening inner closing)
          (enclose storedOpening storedInner storedClosing) := by
        have acceptedWhole := accepted.front
        cases isType : component.isType with
        | false =>
            have noType := typeClosing?_of_not_isType sourceOpens isType
            have closingNoType :=
              typeClosing?_of_opens?_eq_none (opens?_eq_none_of_closes? sourceCloses)
            have innerAccepted := (acceptedWhole.tail noType).front
            have closingAlone : RecapturedAs [closing] [storedClosing] :=
              .cons closingNoType (signal_of_unspanned sameClosing) .nil
            exact .cons noType (signal_of_unspanned sameOpening)
              ((ihInside innerAccepted).append closingAlone)
        | true =>
            rw [isType, Bool.or_true] at inside
            have sourceNamed := named
            rw [name_of_unspanned sameOpening, name_of_unspanned sameClosing] at sourceNamed
            obtain ⟨measured, nested⟩ := inside.measuresTo_source
            obtain ⟨unambiguous, searched⟩ := acceptedWhole.unambiguous sourceOpens
              (typeClosing?_of_opens? sourceOpens sourceCloses isType) sourceNamed nested
            exact .type opens closes isType named sameOpening sameClosing inside unambiguous
              fun composite => ihInside (searched composite)
      exact whole.append (ihLater (whole.behind accepted))
  | @constantField field opening closing ending values behind rest storedField storedOpening value
      storedClosing storedEnding kept storedBehind storedRest isField constant opens isValue closes
      named endsField fieldNamed within referred sameField sameOpening sameValue sameClosing
      sameEnding inside later ihInside ihLater =>
      have fieldSignal := signal_of_unspanned sameField
      have endingSignal := signal_of_unspanned sameEnding
      have fieldNoType : typeClosing? field.signal = none := by
        rw [← fieldSignal, isField]
        rfl
      have endingNoType : typeClosing? ending.signal = none := by
        rw [← endingSignal, endsField]
        rfl
      have enum : RecapturedAs (enclose opening values closing)
          (enclose storedOpening [value] storedClosing) :=
        .reducedEnum opens isValue closes named within sameOpening sameValue sameClosing
      have endingAlone : RecapturedAs [ending] [storedEnding] :=
        .cons endingNoType endingSignal .nil
      have acceptedInside := accepted.front.tail fieldNoType
      rw [List.append_assoc] at acceptedInside
      have behindAccepted := (enum.behind acceptedInside).front
      have whole : RecapturedAs (enclose field (enclose opening values closing ++ behind) ending)
          (enclose storedField (enclose storedOpening [value] storedClosing ++ storedBehind)
            storedEnding) :=
        .cons fieldNoType fieldSignal ((enum.append (ihInside behindAccepted)).append endingAlone)
      exact whole.append (ihLater (whole.behind accepted))

end WireSchema
