/-
Module: WireSchema.Proofs.ReloadedNested
Purpose: Where the last of two types wins, a stored message is added again once it was read back if
  its tokens are nested, no type stands in it within another one of the same kind and name, and
  every constant in it has its value (`Addition.StoredAs.nestedAgain`).  That asks nothing of where
  the enum of a constant field stands.
Main exports: EndsApart, Unambiguous, Addition.StoredAs.nestedAgain
-/
import WireSchema.Proofs.StoredAgain

namespace WireSchema

/-- A construct that is no message, with one name on both of its ends, and if it is a type none of
its kind and name ends inside it. -/
structure EndsApart (opening : Token) (inner : List Token) (closing : Token) : Prop
    extends WithinMessage opening inner closing where
  endsOnce : opening.signal.opens?.any Component.isType = true →
    ∀ token ∈ inner, Token.isNamed closing.signal opening.name token = false

/-- A nested sequence in which no type stands within another one of its kind and name, so that every
type reaches to its own end. -/
abbrev Unambiguous : List Token → Prop :=
  Nests EndsApart

namespace Unambiguous

variable {tokens : List Token}

theorem nested (unambiguous : Unambiguous tokens) : Nested tokens :=
  unambiguous.mono fun _ _ _ fits => fits.toWithinMessage

theorem map_reread (unambiguous : Unambiguous tokens) :
    Unambiguous (tokens.map Token.reread) :=
  unambiguous.map Token.signal_reread fun _ _ _ fits =>
    ⟨⟨fits.noMessage, fits.named⟩, fun isType => List.forall_mem_map.mpr (fits.endsOnce isType)⟩

/-- A construct is measured on its own. -/
theorem measured_enclose {component : Component} {opening closing : Token} {inner : List Token}
    (opens : opening.signal.opens? = some component)
    (closes : closing.signal.closes? = some component) (inside : Unambiguous inner) :
    ∃ measured, withSpans (enclose opening inner closing) = .ok measured := by
  obtain ⟨measuredInner, measures⟩ := inside.measuresTo
  exact ⟨_, withSpans_of_measuresTo (.enclosed opens closes measures)⟩

/-- The types among unambiguous tokens are captured, and each of them can be measured. -/
theorem capturesTo (unambiguous : Unambiguous tokens) :
    ∃ types, CapturesTo tokens types ∧
      ∀ type ∈ types, ∃ measured, withSpans type.2 = .ok measured := by
  induction unambiguous with
  | nil => exact ⟨[], .nil, nofun⟩
  | leaf isLeaf _ ih =>
      obtain ⟨types, captures, measurable⟩ := ih
      exact ⟨types, .cons (typeClosing?_of_opens?_eq_none isLeaf.1) captures, measurable⟩
  | @construct component opening closing inner rest opens closes fits inside later ihInside
      ihLater =>
      obtain ⟨innerTypes, capturesInner, measurableInner⟩ := ihInside
      obtain ⟨laterTypes, capturesLater, measurableLater⟩ := ihLater
      have closingNoType :=
        typeClosing?_of_opens?_eq_none (opens?_eq_none_of_closes? closes)
      have whole : ∃ types, CapturesTo (enclose opening inner closing) types ∧
          ∀ type ∈ types, ∃ measured, withSpans type.2 = .ok measured := by
        cases isType : component.isType with
        | false =>
            have behind := capturesInner.append (.cons closingNoType .nil)
            rw [List.append_nil] at behind
            exact ⟨innerTypes, .cons (typeClosing?_of_not_isType opens isType) behind,
              measurableInner⟩
        | true =>
            have typeOpens := typeClosing?_of_opens? opens closes isType
            have endsOnce := fits.endsOnce (by rwa [opens])
            have own := measured_enclose opens closes inside
            by_cases composite : opening.signal = .beginComposite
            · exact ⟨_, .type typeOpens fits.named endsOnce (fun _ => capturesInner)
                fun other => absurd composite other, List.forall_mem_cons.mpr
                  ⟨own, measurableInner⟩⟩
            · exact ⟨_, .type typeOpens fits.named endsOnce
                (fun isComposite => absurd isComposite composite) fun _ => rfl,
                List.forall_mem_singleton.mpr own⟩
      obtain ⟨types, captures, measurable⟩ := whole
      exact ⟨types ++ laterTypes, captures.append capturesLater,
        List.forall_mem_append.mpr ⟨measurable, measurableLater⟩⟩

end Unambiguous

/-- Types that can be measured are measured to some types. -/
theorem exists_measuredAs {captured : List (String × List Token)}
    (measurable : ∀ type ∈ captured, ∃ measured, withSpans type.2 = .ok measured) :
    ∃ types, List.Forall₂ MeasuredAs captured types := by
  induction captured with
  | nil => exact ⟨[], .nil⟩
  | cons first others ih =>
      rw [List.forall_mem_cons] at measurable
      obtain ⟨⟨measured, isMeasured⟩, measurableOthers⟩ := measurable
      obtain ⟨types, all⟩ := ih measurableOthers
      exact ⟨(first.1, measured) :: types, .cons ⟨rfl, isMeasured⟩ all⟩

/-! ### Reducing what was read back -/

theorem wrapsConstantEnum_reread (field : Token) (rest : List Token) :
    wrapsConstantEnum field.reread (rest.map Token.reread) = wrapsConstantEnum field rest := by
  cases rest <;> rfl

theorem emptiedConstant_map_reread (token : Token) :
    emptiedConstant token.reread = (emptiedConstant token).reread := by
  unfold emptiedConstant
  change (if token.signal = .encoding ∧ token.isConstant then token.reread.emptied
    else token.reread) = _
  split <;> rfl

/-- A constant field in front of an enum keeps the value that it refers to. -/
theorem reduceConstants_enum {index : Nat} {field opening closing kept : Token}
    {body after later : List Token} (wraps : wrapsConstantEnum field (opening :: body) = true)
    (ending : body.dropWhile (·.signal ≠ .endEnum) = closing :: after)
    (named : (body.takeWhile (·.signal ≠ .endEnum)).find?
      (fun value => refersTo (valueReference field) value.name) = some kept)
    (isLater : reduceConstants
      (index + (body.takeWhile (·.signal ≠ .endEnum)).length + 3) after = .ok later) :
    reduceConstants index (field :: opening :: body) =
      .ok (field :: opening.emptied :: kept.emptied.fixed :: closing.emptied :: later) := by
  rw [reduceConstants.eq_def]
  simp only [wraps, if_true]
  split
  · rename_i none
    rw [ending] at none
    cases none
  · rename_i last behind isLast
    rw [ending] at isLast
    cases isLast
    rw [named]
    simp only
    rw [isLater]
    rfl

/-- Tokens that were read back are reduced to what was read back of the reduced ones. -/
theorem reduceConstants_reread {index : Nat} {tokens reduced : List Token}
    (accepted : reduceConstants index tokens = .ok reduced) :
    reduceConstants index (tokens.map Token.reread) = .ok (reduced.map Token.reread) := by
  fun_induction reduceConstants index tokens generalizing reduced with
  | case1 =>
      cases accepted
      rw [List.map_nil, reduceConstants]
  | case2 index token wraps => simp [wrapsConstantEnum] at wraps
  | case3 => cases accepted
  | case4 => cases accepted
  | case5 index field opening body closing after ending values reference kept named =>
      rename_i wraps ih
      obtain ⟨later, isLater, accepted⟩ := ok_of_bind accepted
      cases accepted
      have sameSignal : (fun token : Token => decide (token.signal ≠ .endEnum)) ∘ Token.reread =
          fun token => decide (token.signal ≠ .endEnum) := rfl
      have sameName : (fun value : Token => refersTo (valueReference field) value.name) ∘
          Token.reread = fun value => refersTo (valueReference field) value.name := rfl
      have wrapsReread :
          wrapsConstantEnum field.reread (opening.reread :: body.map Token.reread) = true := wraps
      have endingReread : (body.map Token.reread).dropWhile (·.signal ≠ .endEnum) =
          closing.reread :: after.map Token.reread := by
        rw [List.dropWhile_map, sameSignal, ending, List.map_cons]
      have namedReread : ((body.map Token.reread).takeWhile (·.signal ≠ .endEnum)).find?
          (fun value => refersTo (valueReference field.reread) value.name) = some kept.reread := by
        rw [List.takeWhile_map, sameSignal, List.find?_map, valueReference_reread, sameName, named]
        rfl
      refine reduceConstants_enum wrapsReread endingReread namedReread ?_
      rw [List.takeWhile_map, sameSignal, List.length_map]
      exact ih isLater
  | case6 index token rest plain ih =>
      obtain ⟨later, isLater, accepted⟩ := ok_of_bind accepted
      cases accepted
      have plainReread : wrapsConstantEnum token.reread (rest.map Token.reread) = false := by
        rw [wrapsConstantEnum_reread]
        simpa using plain
      rw [List.map_cons, reduceConstants_cons plainReread, ih isLater, emptiedConstant_map_reread]
      rfl

/-! ### Adding what was read back -/

/-- A stored message that is unambiguous and lacks no value of a constant is added again, with the
types that it holds. -/
theorem Addition.StoredAs.nestedAgain {addition : Addition} {stored : List Token}
    (storedAs : addition.StoredAs stored) {messageId : Int64}
    (shaped : MessageShaped Unambiguous messageId stored)
    (leafSpans : ∀ token ∈ stored, token.IsLeaf → 1 ≤ token.storedSpan)
    (given : ∀ token ∈ stored, token.ConstantGiven) :
    ∃ types, AddedAgain messageId stored types := by
  obtain ⟨opening, body, closing, rfl, opens, closes, named, numbered, unambiguous⟩ := shaped
  obtain ⟨reduced, isReduced, isMeasured⟩ := storedAs.reduced
  have opensReread : opening.reread.signal = .beginMessage := opens
  have closesReread : closing.reread.signal = .endMessage := closes
  have opensMessage := congrArg Signal.opens? opens
  have closesMessage := congrArg Signal.closes? closes
  -- the types
  obtain ⟨captured, captures, measurable⟩ := unambiguous.map_reread.capturesTo
  obtain ⟨types, measured⟩ := exists_measuredAs measurable
  have noTypeOpens : typeClosing? opening.reread.signal = none := by
    rw [opensReread]
    rfl
  have noTypeCloses : typeClosing? closing.reread.signal = none := by
    rw [closesReread]
    rfl
  have wholeCaptures : CapturesTo (enclose opening.reread (body.map Token.reread) closing.reread)
      captured := by
    have behind := captures.append (.cons noTypeCloses .nil)
    rw [List.append_nil] at behind
    exact .cons noTypeOpens behind
  refine ⟨types, ?checked, ⟨captured, ?captured, measured⟩, ?irreducible, ?measured⟩
  case checked =>
    rw [map_reread_enclose, checkMessage_enclose opensReread closesReread, ← map_reread_enclose,
      checkConstants_eq_ok_iff, List.forall_mem_map]
    intro token member constant
    rw [Ne, constValue_reread_eq_none]
    exact given token member constant
  case captured =>
    rw [map_reread_enclose]
    exact wholeCaptures.alone
  case irreducible =>
    exact reduceConstants_reread
      (reduceConstants_again isReduced (unspanned_withSpans isMeasured) 0)
  case measured =>
    obtain ⟨measuredBody, measures⟩ := unambiguous.measuresTo
    exact (MeasuresTo.enclosed opensMessage closesMessage measures).rereadMeasured isMeasured
      leafSpans

end WireSchema
