/-
Module: WireSchema.Proofs.ReloadedMessage
Purpose: What a draft stores for a message can be added to a draft under the same number once it was
  read back: it passes every check, nothing in it is reduced further, its spans are those that it
  had, and its types are those of the message that it was stored for (`Addition.StoredAs.again`).
Main exports: AddedAgain, KeptMessage, Addition.StoredAs.again
-/
import WireSchema.Proofs.DraftHistory

namespace WireSchema

/-- A message around a sequence of tokens of a certain shape, under the number that its opening
token carries. -/
def MessageShaped (shape : List Token → Prop) (messageId : Int64) (tokens : List Token) : Prop :=
  ∃ opening body closing, tokens = enclose opening body closing ∧
    opening.signal = .beginMessage ∧ closing.signal = .endMessage ∧ closing.name = opening.name ∧
    opening.id.toInt64 = messageId ∧ shape body

/-- What is asked of the tokens of a stored message besides its shape. -/
structure MessageSettled (tokens : List Token) : Prop where
  leafSpans : ∀ token ∈ tokens, token.IsLeaf → 1 ≤ token.storedSpan
  valuesGiven : ∀ token ∈ tokens, token.signal = .validValue → token.encoding.constValue ≠ none

/-- What adding a message again comes to. -/
structure AddedAgain (messageId : Int64) (stored : List Token)
    (types : List (String × List Token)) : Prop where
  checked : checkMessage messageId (stored.map Token.reread) = .ok ()
  held : HoldsTypes (stored.map Token.reread) types
  irreducible : reduceConstants 0 (stored.map Token.reread) = .ok (stored.map Token.reread)
  measured : withSpans (stored.map Token.reread) = .ok (stored.map Token.canonical)

/-- The check of a message that is framed as one. -/
theorem checkMessage_enclose {opening closing : Token} (opens : opening.signal = .beginMessage)
    (closes : closing.signal = .endMessage) (messageId : Int64) (body : List Token) :
    checkMessage messageId (enclose opening body closing) =
      checkConstants 0 (enclose opening body closing) := by
  have first : (enclose opening body closing).head? = some opening := rfl
  have last : (enclose opening body closing).getLast? = some closing := by
    rw [enclose, ← List.cons_append, List.getLast?_concat]
  have framed : ¬((enclose opening body closing).length < 2 ∨ opening.signal ≠ .beginMessage ∨
      closing.signal ≠ .endMessage) := by
    rw [length_enclose]
    simp [opens, closes]
  unfold checkMessage
  simp only [first, last]
  rw [if_neg framed]

/-- The types of a message that was accepted were found and measured. -/
theorem HoldsTypes.captureAccepted {tokens : List Token} {types : List (String × List Token)}
    (held : HoldsTypes tokens types) : CaptureAccepted tokens := by
  obtain ⟨captured, isCaptured, measured⟩ := held
  refine ⟨0, 0, [], captured, by rwa [List.append_nil], fun type member => ?_⟩
  obtain ⟨index, inside, rfl⟩ := List.getElem_of_mem member
  exact ⟨_, (measured.get inside (measured.length_eq ▸ inside)).measured⟩

/-- Spans do not decide whether a constant loses its length. -/
theorem emptiedConstant_unspanned (token : Token) :
    (emptiedConstant token).canonical.unspanned = (emptiedConstant token.unspanned).canonical := by
  unfold emptiedConstant
  change _ = (if token.signal = .encoding ∧ token.isConstant then token.unspanned.emptied
    else token.unspanned).canonical
  split <;> rfl

/-- Types that were captured again are measured to types that are the same again. -/
theorem recaptured_of_measured {captured types again : List (String × List Token)}
    (measured : List.Forall₂ MeasuredAs captured types)
    (same : List.Forall₂ (fun type again => RecapturedStored type again ∧ Nested again.2) captured
      again) :
    ∃ typesAgain, List.Forall₂ MeasuredAs again typesAgain ∧
      List.Forall₂ RecapturedStored types typesAgain := by
  induction measured generalizing again with
  | nil =>
      cases same
      exact ⟨[], .nil, .nil⟩
  | @cons first type others types measuredFirst measuredOthers ih =>
      cases same with
      | @cons _ firstAgain _ othersAgain sameFirst sameOthers =>
          obtain ⟨typesAgain, measuredAgain, recaptured⟩ := ih sameOthers
          obtain ⟨recapturedFirst, nested⟩ := sameFirst
          obtain ⟨measuredTokens, measures⟩ := nested.measuresTo
          have isMeasured : MeasuredAs firstAgain (firstAgain.1, measuredTokens) :=
            ⟨rfl, withSpans_of_measuresTo measures⟩
          refine ⟨_ :: typesAgain, .cons isMeasured measuredAgain, .cons ⟨?_, ?_⟩ recaptured⟩
          · rw [measuredFirst.name]
            exact recapturedFirst.name
          · rw [isReducedEnum_of_unspanned isMeasured.unspanned, isMeasured.unspanned]
            refine recapturedFirst.layout.imp_right fun layout => layout.trans ?_
            have same := congrArg (List.map fun token => (emptiedConstant token).canonical)
              measuredFirst.unspanned
            simp only [List.map_map] at same
            refine (List.map_congr_left fun token _ => ?_).trans
              (same.symm.trans (List.map_congr_left fun token _ => ?_))
            · exact emptiedConstant_unspanned token
            · exact (emptiedConstant_unspanned token).symm

/-! ### What is kept of a message -/

/-- A message, and a stored one that everything was kept in but what reducing takes away. -/
inductive KeptMessage : List Token → List Token → Prop where
  | message {opening closing storedOpening storedClosing : Token} {inner storedInner : List Token}
      (opens : storedOpening.signal = .beginMessage) (closes : storedClosing.signal = .endMessage)
      (sameOpening : storedOpening.unspanned = opening.unspanned)
      (sameClosing : storedClosing.unspanned = closing.unspanned)
      (inside : Kept false inner storedInner) :
      KeptMessage (enclose opening inner closing) (enclose storedOpening storedInner storedClosing)

namespace KeptMessage

variable {tokens stored : List Token}

theorem measuresTo (kept : KeptMessage tokens stored) : ∃ measured, MeasuresTo stored measured := by
  obtain ⟨opens, closes, _, _, inside⟩ := kept
  have opensMessage := congrArg Signal.opens? opens
  have closesMessage := congrArg Signal.closes? closes
  obtain ⟨measured, measures⟩ := inside.nested.measuresTo
  exact ⟨_, .enclosed opensMessage closesMessage measures⟩

theorem irreducible (kept : KeptMessage tokens stored) :
    Irreducible (stored.map Token.reread) := by
  obtain ⟨opens, closes, _, _, inside⟩ := kept
  rw [← Token.signal_reread] at opens closes
  have opensMessage := congrArg Signal.opens? opens
  have closesMessage := congrArg Signal.closes? closes
  rw [map_reread_enclose]
  exact .enclosed opensMessage closesMessage (wrapsConstantEnum_of_ne (by rw [opens]; decide) _)
    inside.irreducible

theorem constantGiven (kept : KeptMessage tokens stored)
    (given : ∀ token ∈ tokens, token.ConstantGiven)
    (valuesGiven : ∀ token ∈ stored, token.signal = .validValue →
      token.encoding.constValue ≠ none) : ∀ token ∈ stored, token.ConstantGiven := by
  obtain ⟨_, _, sameOpening, sameClosing, inside⟩ := kept
  simp only [enclose, List.forall_mem_cons, List.forall_mem_append] at given valuesGiven ⊢
  obtain ⟨givenOpening, givenInner, givenClosing, _⟩ := given
  exact ⟨constantGiven_of_encoding (congrArg Token.encoding sameOpening) givenOpening,
    inside.constantGiven givenInner valuesGiven.2.1,
    constantGiven_of_encoding (congrArg Token.encoding sameClosing) givenClosing, by simp⟩

theorem recaptured (kept : KeptMessage tokens stored) (accepted : CaptureAccepted tokens) :
    RecapturedAs tokens stored := by
  cases kept with
  | @message opening closing storedOpening storedClosing inner storedInner opens closes sameOpening
      sameClosing inside =>
      have openingSignal := signal_of_unspanned sameOpening
      have closingSignal := signal_of_unspanned sameClosing
      have openingNoType : typeClosing? opening.signal = none := by
        rw [← openingSignal, opens]
        rfl
      have closingNoType : typeClosing? closing.signal = none := by
        rw [← closingSignal, closes]
        rfl
      have innerAccepted := (accepted.tail openingNoType).front
      have closingAlone : RecapturedAs [closing] [storedClosing] :=
        .cons closingNoType closingSignal .nil
      exact .cons openingNoType openingSignal
        ((inside.recaptured innerAccepted).append closingAlone)

end KeptMessage

/-- What is stored of a message was kept of it. -/
theorem Addition.StoredAs.keptMessage {addition : Addition} {stored : List Token}
    (storedAs : addition.StoredAs stored)
    (shaped : MessageShaped (Shaped false) addition.messageId stored) :
    KeptMessage addition.tokens stored := by
  obtain ⟨opening, body, closing, rfl, opens, closes, _, _, inside⟩ := shaped
  obtain ⟨reduced, isReduced, isMeasured⟩ := storedAs.reduced
  obtain ⟨sourceOpening, sourceBody, sourceClosing, isSource, sameOpening, sameClosing, kept⟩ :=
    keptMessage_of_reduceConstants isReduced (unspanned_withSpans isMeasured) opens closes inside
  rw [isSource]
  exact .message opens closes sameOpening sameClosing kept

/-- A message with a value for each of its constants passes the check. -/
theorem KeptMessage.checked {tokens stored : List Token} (kept : KeptMessage tokens stored)
    (messageId : Int64) (given : ∀ token ∈ stored, token.ConstantGiven) :
    checkMessage messageId (stored.map Token.reread) = .ok () := by
  obtain ⟨opens, closes, _, _, _⟩ := kept
  rw [← Token.signal_reread] at opens closes
  rw [map_reread_enclose, checkMessage_enclose opens closes, ← map_reread_enclose,
    checkConstants_eq_ok_iff, List.forall_mem_map]
  intro token member constant
  rw [Ne, constValue_reread_eq_none]
  exact given token member constant

/-- The check that a message has passed found a value for each of its constants. -/
theorem KeptMessage.given_of_checked {tokens stored : List Token} (kept : KeptMessage tokens stored)
    {messageId : Int64} (checked : checkMessage messageId tokens = .ok ()) :
    ∀ token ∈ tokens, token.ConstantGiven := by
  obtain ⟨opens, closes, sameOpening, sameClosing, _⟩ := kept
  rw [signal_of_unspanned sameOpening] at opens
  rw [signal_of_unspanned sameClosing] at closes
  rwa [checkMessage_enclose opens closes, checkConstants_eq_ok_iff] at checked

/-- The spans of measured tokens that were read back are those that were stored. -/
theorem MeasuresTo.rereadMeasured {stored again reduced : List Token}
    (measures : MeasuresTo stored again) (isMeasured : withSpans reduced = .ok stored)
    (leafSpans : ∀ token ∈ stored, token.IsLeaf → 1 ≤ token.storedSpan) :
    withSpans (stored.map Token.reread) = .ok (stored.map Token.canonical) := by
  have remeasures := (MeasuresTo.of_withSpans isMeasured measures).reread
  rw [withSpans_of_measuresTo remeasures]
  congr 1
  refine List.map_congr_left fun token member => ?_
  rw [Token.remeasured]
  split
  · rename_i leaf
    exact Token.reread_eq_canonical (leafSpans token member leaf)
  · rfl

/-- A stored message is added again with the types that it was stored with. -/
theorem Addition.StoredAs.again {addition : Addition} {stored : List Token}
    (storedAs : addition.StoredAs stored)
    (shaped : MessageShaped (Shaped false) addition.messageId stored)
    (settled : MessageSettled stored) :
    ∃ types, AddedAgain addition.messageId stored types ∧
      List.Forall₂ RecapturedStored addition.types types := by
  have kept := storedAs.keptMessage shaped
  obtain ⟨reduced, _, isMeasured⟩ := storedAs.reduced
  obtain ⟨measured, measures⟩ := kept.measuresTo
  have given := kept.constantGiven (kept.given_of_checked storedAs.checked) settled.valuesGiven
  obtain ⟨types, again, captures, capturesAgain, same⟩ :=
    kept.recaptured storedAs.held.captureAccepted
  obtain ⟨captured, isCaptured, measuredTypes⟩ := storedAs.held
  cases isCaptured.symm.trans captures.alone
  obtain ⟨typesAgain, measuredAgain, recaptured⟩ := recaptured_of_measured measuredTypes same
  refine ⟨typesAgain, ⟨kept.checked _ given, ⟨again, capturesAgain.alone, measuredAgain⟩,
    kept.irreducible.alone, measures.rereadMeasured isMeasured settled.leafSpans⟩, recaptured⟩

end WireSchema
