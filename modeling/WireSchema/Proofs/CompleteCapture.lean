/-
Module: WireSchema.Proofs.CompleteCapture
Purpose: The end of a type is searched by signal and name.  That finds the end that nesting gives
  the type if no composite holds one of its own name and enums and sets hold leaves (`Capturable`),
  and then the types that are captured are those that are there, one for each token that opens a
  type and in the order of these tokens (`typesOf_complete`).  Each of them can be measured alone,
  and gets the spans that it gets as a part of the whole.
Main exports: Capturable, typePlaces, CapturedAt, typesOf_complete
-/
import WireSchema.Proofs.ConstructNesting
import WireSchema.Proofs.RecapturedTypes
import WireSchema.Proofs.StoredNesting

namespace WireSchema

/-- A construct whose end can be searched by signal and name: both of its ends have one name, a
composite holds none of its own name, and an enum or a set holds leaves only. -/
structure Capturable (opening : Token) (inner : List Token) (closing : Token) : Prop where
  named : closing.name = opening.name
  composite : opening.signal = .beginComposite →
    ∀ token ∈ inner, token.signal = .beginComposite → token.name ≠ opening.name
  leaves : opening.signal = .beginEnum ∨ opening.signal = .beginSet →
    ∀ token ∈ inner, token.IsLeaf

/-- Whether a token opens a type. -/
def Token.opensType (token : Token) : Bool :=
  token.signal == .beginComposite || token.signal == .beginEnum || token.signal == .beginSet

/-- The places of the tokens that open types, in the order of the list. -/
def typePlaces (tokens : List Token) : List Nat :=
  (List.range tokens.length).filter fun place => tokens[place]?.any Token.opensType

/-- A type is what was captured at a place: it has the name of the token there and the tokens of the
construct that this token opens, which are measured alone as they are measured in the whole. -/
structure CapturedAt (tokens measured : List Token) (place : Nat) (type : String × List Token) :
    Prop where
  whole : ∃ component last opening inner closing,
    ConstructAt tokens component place last opening inner closing ∧ WellNested inner ∧
      type = (opening.name, enclose opening inner closing)
  spans : withSpans type.2 = .ok ((measured.drop place).take type.2.length)

/-- Tokens that hold certain types wherever they stand, one for each token that opens a type. -/
def Catalogued (tokens : List Token) : Prop :=
  ∃ types measured, CapturesTo tokens types ∧ MeasuresTo tokens measured ∧
    List.Forall₂ (CapturedAt tokens measured) (typePlaces tokens) types

variable {tokens measured first second : List Token}

/-! ### Places of types -/

theorem typeClosing?_eq_none_iff {token : Token} :
    typeClosing? token.signal = none ↔ token.opensType = false := by
  rw [Token.opensType]
  cases token.signal <;> decide

theorem Token.opensType_eq {token : Token} {component : Component}
    (opens : token.signal.opens? = some component) : token.opensType = component.isType := by
  rw [Signal.opens?_eq_some_iff] at opens
  rw [Token.opensType, ← opens]
  cases component <;> decide

theorem Token.IsLeaf.opensType {token : Token} (isLeaf : token.IsLeaf) :
    token.opensType = false :=
  typeClosing?_eq_none_iff.mp (typeClosing?_of_opens?_eq_none isLeaf.1)

theorem typePlaces_cons (token : Token) (rest : List Token) :
    typePlaces (token :: rest) =
      (if token.opensType then [0] else []) ++ (typePlaces rest).map (1 + ·) := by
  have shifted : (fun place => (token :: rest)[place]?.any Token.opensType) ∘ Nat.succ =
      fun place => rest[place]?.any Token.opensType := by
    funext place
    simp
  have succ : (1 + ·) = Nat.succ := by
    funext place
    exact Nat.add_comm 1 place
  rw [typePlaces, List.length_cons, List.range_succ_eq_map, List.filter_cons, List.filter_map,
    shifted, succ, ← typePlaces]
  cases opens : token.opensType with
  | true => simp [opens]
  | false => simp [opens]

theorem typePlaces_append (first second : List Token) :
    typePlaces (first ++ second) =
      typePlaces first ++ (typePlaces second).map (first.length + ·) := by
  induction first with
  | nil =>
      have same : (([] : List Token).length + ·) = id := funext fun place => Nat.zero_add place
      rw [same, List.map_id]
      rfl
  | cons token rest ih =>
      have moved : (1 + ·) ∘ (rest.length + ·) = ((token :: rest).length + ·) := by
        funext place
        simp only [Function.comp_apply, List.length_cons]
        omega
      rw [List.cons_append, typePlaces_cons, typePlaces_cons, ih, List.map_append, List.map_map,
        moved, List.append_assoc]

theorem typePlaces_eq_nil (noType : ∀ token ∈ tokens, token.opensType = false) :
    typePlaces tokens = [] := by
  induction tokens with
  | nil => rfl
  | cons token rest ih =>
      obtain ⟨here, later⟩ := List.forall_mem_cons.mp noType
      rw [typePlaces_cons, ih later, here]
      rfl

/-! ### What is captured at a place -/

namespace CapturedAt

variable {place : Nat} {type : String × List Token}

theorem length_le (captured : CapturedAt tokens measured place type) :
    place + type.2.length ≤ tokens.length := by
  obtain ⟨_, _, _, _, _, ⟨⟨before, after, rfl, rfl⟩, _⟩, _, rfl⟩ := captured.whole
  simp only [List.length_append]
  omega

/-- What stands behind a list changes nothing that is captured in it. -/
theorem inFront (captured : CapturedAt first measured place type)
    (length : measured.length = first.length) (more measuredMore : List Token) :
    CapturedAt (first ++ more) (measured ++ measuredMore) place type := by
  have upTo := captured.length_le
  obtain ⟨component, last, opening, inner, closing, isAt, inside, isType⟩ := captured.whole
  refine ⟨⟨component, last, opening, inner, closing, isAt.inFront more, inside, isType⟩, ?_⟩
  rw [captured.spans, List.drop_append_of_le_length (by omega),
    List.take_append_of_le_length]
  rw [List.length_drop]
  omega

/-- What stands in front of a list moves what is captured in it. -/
theorem behind (captured : CapturedAt second measured place type)
    (front measuredFront : List Token) (length : measuredFront.length = front.length) :
    CapturedAt (front ++ second) (measuredFront ++ measured) (front.length + place) type := by
  obtain ⟨component, last, opening, inner, closing, isAt, inside, isType⟩ := captured.whole
  refine ⟨⟨component, _, opening, inner, closing, isAt.behind front, inside, isType⟩, ?_⟩
  rw [captured.spans, ← length, List.drop_length_add_append]

/-- A construct alone. -/
theorem alone {component : Component} {opening closing : Token} {inner measuredInner : List Token}
    (opens : opening.signal.opens? = some component)
    (closes : closing.signal.closes? = some component) (inside : WellNested inner)
    (measures : MeasuresTo inner measuredInner) :
    CapturedAt (enclose opening inner closing)
      (enclose (opening.withSpan (enclosedSpan inner)) measuredInner
        (closing.withSpan (enclosedSpan inner))) 0
      (opening.name, enclose opening inner closing) where
  whole := by
    have parts : enclose opening inner closing = [] ++ (enclose opening inner closing ++ []) := by
      simp
    exact ⟨component, _, opening, inner, closing, ⟨⟨[], [], parts, rfl⟩, rfl, opens, closes⟩,
      inside, rfl⟩
  spans := by
    have whole := MeasuresTo.enclosed opens closes measures
    rw [withSpans_of_measuresTo whole, List.drop_zero, ← whole.length_eq, List.take_length]

end CapturedAt

/-! ### All types of a list -/

namespace Catalogued

theorem nil : Catalogued [] :=
  ⟨[], [], .nil, .nil, .nil⟩

theorem append (one : Catalogued first) (other : Catalogued second) :
    Catalogued (first ++ second) := by
  obtain ⟨types, measured, captures, measures, found⟩ := one
  obtain ⟨others, measuredOther, capturesOther, measuresOther, foundOther⟩ := other
  refine ⟨types ++ others, measured ++ measuredOther, captures.append capturesOther,
    measures.append measuresOther, ?_⟩
  rw [typePlaces_append]
  apply List.rel_append
  · exact found.imp fun _ _ captured => captured.inFront measures.length_eq _ _
  · rw [List.forall₂_map_left_iff]
    exact foundOther.imp fun _ _ captured => captured.behind _ _ measures.length_eq

theorem leaf {token : Token} (isLeaf : token.IsLeaf) : Catalogued [token] := by
  have noType := typeClosing?_of_opens?_eq_none isLeaf.1
  refine ⟨[], [token], .cons noType .nil, .leaf isLeaf.1 isLeaf.2 .nil, ?_⟩
  rw [typePlaces_cons, isLeaf.opensType]
  exact .nil

/-- Nothing inside a type has the signal and the name of its end. -/
theorem unambiguous {component : Component} {opening closing : Token} {inner : List Token}
    (opens : opening.signal.opens? = some component)
    (closes : closing.signal.closes? = some component) (isType : component.isType = true)
    (fits : Capturable opening inner closing) (nests : Nests Capturable inner) :
    ∀ token ∈ inner, Token.isNamed closing.signal opening.name token = false := by
  rw [Signal.opens?_eq_some_iff] at opens
  rw [Signal.closes?_eq_some_iff] at closes
  rw [← closes]
  apply nests.isNamed_eq_false fun _ _ _ fits => fits.named
  intro token member isOpening
  have notLeaf : ¬ token.IsLeaf := by
    intro isLeaf
    have opensToken := (Signal.opens?_eq_some_iff _ component).mpr isOpening.symm
    rw [isLeaf.1] at opensToken
    cases opensToken
  cases component with
  | composite => exact fits.composite opens.symm token member isOpening
  | enumeration => exact absurd (fits.leaves (.inl opens.symm) token member) notLeaf
  | set => exact absurd (fits.leaves (.inr opens.symm) token member) notLeaf
  | message | field | group | varData => cases isType

/-- A construct with the types inside it, and one more if it is a type itself. -/
theorem construct {component : Component} {opening closing : Token} {inner : List Token}
    (opens : opening.signal.opens? = some component)
    (closes : closing.signal.closes? = some component) (fits : Capturable opening inner closing)
    (nests : Nests Capturable inner) (inside : Catalogued inner) :
    Catalogued (enclose opening inner closing) := by
  obtain ⟨types, measuredInner, captures, measures, found⟩ := inside
  have whole := MeasuresTo.enclosed opens closes measures
  have closingNoType : closing.opensType = false := by
    apply typeClosing?_eq_none_iff.mp
    exact typeClosing?_of_opens?_eq_none (opens?_eq_none_of_closes? closes)
  have places : typePlaces (enclose opening inner closing) =
      (if opening.opensType then [0] else []) ++ (typePlaces inner).map (1 + ·) := by
    rw [enclose, typePlaces_cons, typePlaces_append, typePlaces_cons, closingNoType]
    simp [typePlaces]
  -- what is captured inside is captured one place further on
  have moved : List.Forall₂
      (CapturedAt (enclose opening inner closing)
        (enclose (opening.withSpan (enclosedSpan inner)) measuredInner
          (closing.withSpan (enclosedSpan inner)))) ((typePlaces inner).map (1 + ·)) types := by
    rw [List.forall₂_map_left_iff]
    refine found.imp fun place type captured => ?_
    have inFront := captured.inFront measures.length_eq [closing]
      [closing.withSpan (enclosedSpan inner)]
    exact inFront.behind [opening] [opening.withSpan (enclosedSpan inner)] rfl
  cases isType : opening.opensType with
  | false =>
      rw [isType] at places
      have noType := typeClosing?_eq_none_iff.mpr isType
      have closingAlone : CapturesTo [closing] [] :=
        .cons (typeClosing?_eq_none_iff.mpr closingNoType) .nil
      have captured : CapturesTo (enclose opening inner closing) (types ++ []) :=
        .cons noType (captures.append closingAlone)
      rw [List.append_nil] at captured
      refine ⟨types, _, captured, whole, ?_⟩
      rw [places]
      exact moved
  | true =>
      rw [isType] at places
      have typeComponent := (Token.opensType_eq opens).symm.trans isType
      have closesType := typeClosing?_of_opens? opens closes typeComponent
      have skipped : opening.signal ≠ .beginComposite → types = [] := by
        intro notComposite
        have isOther : opening.signal = .beginEnum ∨ opening.signal = .beginSet := by
          simpa [Token.opensType, notComposite] using isType
        rw [typePlaces_eq_nil fun token member =>
          (fits.leaves isOther token member).opensType] at found
        cases found
        rfl
      refine ⟨(opening.name, enclose opening inner closing) :: types, _,
        .type closesType fits.named (unambiguous opens closes typeComponent fits nests)
          (fun _ => captures) skipped, whole, ?_⟩
      rw [places]
      exact .cons (.alone opens closes nests.wellNested measures) moved

end Catalogued

/-- Nested constructs whose ends can be searched hold a type for each token that opens one. -/
theorem Nests.catalogued (nests : Nests Capturable tokens) : Catalogued tokens := by
  induction nests with
  | nil => exact .nil
  | leaf isLeaf _ ih => exact (Catalogued.leaf isLeaf).append ih
  | construct opens closes fits inside _ ihInside ihLater =>
      exact (Catalogued.construct opens closes fits inside ihInside).append ihLater

/-- What is captured in a list of nested constructs, if no composite holds one of its own name and
enums and sets hold leaves: the types that it holds, one for each token that opens one and in the
order of these tokens.  Each has the tokens up to the end that matches, and measuring them alone
gives them the spans that they get in the whole. -/
theorem typesOf_complete (nests : Nests Capturable tokens) :
    ∃ types measured, typesOf tokens = .ok types ∧ withSpans tokens = .ok measured ∧
      List.Forall₂ (CapturedAt tokens measured) (typePlaces tokens) types := by
  obtain ⟨types, measured, captures, measures, found⟩ := nests.catalogued
  exact ⟨types, measured, captures.alone, withSpans_of_measuresTo measures, found⟩

/-- A construct with nothing but its name, if it is allowed. -/
theorem Nests.around {allowed : Token → List Token → Token → Prop} {inner : List Token}
    (inside : Nests allowed inner) (component : Component) (name : String)
    (fits : allowed { signal := component.opening, name } inner
      { signal := component.closing, name }) :
    Nests allowed (WireSchema.around component name inner) :=
  .enclosed ((Signal.opens?_eq_some_iff _ component).mpr rfl)
    ((Signal.closes?_eq_some_iff _ component).mpr rfl) fits inside

/-- A field of a composite that holds an enum and another composite with a set. -/
def nestedPrice : List Token :=
  around .field "price"
    (around .composite "Price"
      (around .enumeration "Currency"
          [{ signal := .validValue, name := "EUR" }, { signal := .validValue, name := "USD" }] ++
        around .composite "Quote" (around .set "Flags" [{ signal := .choice, name := "firm" }])))

theorem nestedPrice_nests : Nests Capturable nestedPrice := by
  have values : Nests Capturable
      [{ signal := .validValue, name := "EUR" }, { signal := .validValue, name := "USD" }] :=
    .leaves (by decide)
  have choices : Nests Capturable [{ signal := .choice, name := "firm" }] := .leaves (by decide)
  have currency := values.around .enumeration "Currency" ⟨rfl, by decide, by decide⟩
  have flags := choices.around .set "Flags" ⟨rfl, by decide, by decide⟩
  have quote := flags.around .composite "Quote" ⟨rfl, by decide, by decide⟩
  have price := (currency.append quote).around .composite "Price" ⟨rfl, by decide, by decide⟩
  exact price.around .field "price" ⟨rfl, by decide, by decide⟩

/-- The four types of the price, one inside the other and side by side. -/
theorem typesOf_complete_nestedPrice :
    Nests Capturable nestedPrice ∧ ∃ types measured, typesOf nestedPrice = .ok types ∧
      withSpans nestedPrice = .ok measured ∧
      List.Forall₂ (CapturedAt nestedPrice measured) (typePlaces nestedPrice) types :=
  ⟨nestedPrice_nests, typesOf_complete nestedPrice_nests⟩

/-- Outer types stand in front of inner ones. -/
example : typePlaces nestedPrice = [1, 2, 6, 7] ∧
    (typesOf nestedPrice).toOption.map (·.map Prod.fst) =
      some ["Price", "Currency", "Quote", "Flags"] := by
  decide +kernel

end WireSchema
