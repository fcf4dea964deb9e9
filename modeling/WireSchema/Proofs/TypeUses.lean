/-
Module: WireSchema.Proofs.TypeUses
Purpose: A message uses a type where a composite, an enum or a set stands in it.  A constant field
  that wraps an enum fixes it to one value, and only that value is stored; every other use is stored
  whole.  `SchemaTokens` relates the tokens of a schema to the uses of types among them, outer ones
  before inner ones.
Main exports: TypeUse, SchemaTokens, SchemaTokens.capturesTo, SchemaTokens.reduces
-/
import WireSchema.Proofs.ReloadedDraft
import WireSchema.Proofs.StoredNesting

namespace WireSchema

/-!
The types that are captured are the types that are used (`SchemaTokens.capturesTo`), and what is
stored of the tokens are tokens of a schema again, in which each type is used as it is stored
(`SchemaTokens.reduces`).
-/

/-- A use of a type: its tokens, and the constant field that fixes it to one value, if there is
one. -/
structure TypeUse where
  fixedBy : Option Token := none
  opening : Token
  inner : List Token
  closing : Token

namespace TypeUse

/-- The name of the type. -/
def name (use : TypeUse) : String :=
  use.opening.name

/-- The tokens of the type where it is used. -/
def tokens (use : TypeUse) : List Token :=
  enclose use.opening use.inner use.closing

/-- The type as it is captured. -/
def captured (use : TypeUse) : String × List Token :=
  (use.name, use.tokens)

/-- The value of an enum that a constant field refers to. -/
def referred? (use : TypeUse) (field : Token) : Option Token :=
  use.inner.find? fun value => refersTo (valueReference field) value.name

/-- The use as it is stored. -/
def reduced (use : TypeUse) : TypeUse :=
  match use.fixedBy with
  | none =>
    { opening := emptiedConstant use.opening
      inner := use.inner.map emptiedConstant
      closing := emptiedConstant use.closing }
  | some field =>
    { fixedBy := some field
      opening := use.opening.emptied
      inner := (use.referred? field).toList.map fun value => value.emptied.fixed
      closing := use.closing.emptied }

/-- Whether a field that fixes the type refers to one of its values. -/
def Resolved (use : TypeUse) : Prop :=
  ∀ field ∈ use.fixedBy, (use.referred? field).isSome

/-- Whether the type holds a single value if it is fixed. -/
def Single (use : TypeUse) : Prop :=
  use.fixedBy.isSome → ∃ value, use.inner = [value]

/-- Whether the tokens of the type nest, and whether it is an enum of values if it is fixed. -/
structure Formed (use : TypeUse) : Prop where
  nested : Nested use.tokens
  opensEnum : use.fixedBy.isSome → use.opening.signal = .beginEnum
  areValues : use.fixedBy.isSome → ∀ value ∈ use.inner, value.signal = .validValue

/-- Whether no token inside closes the type early. -/
def EndsOnce (use : TypeUse) : Prop :=
  ∀ token ∈ use.inner, Token.isNamed use.closing.signal use.opening.name token = false

/-- Whether two uses are related token by token. -/
structure Alike (related : Token → Token → Prop) (use other : TypeUse) : Prop where
  fixedBy : Option.Rel related use.fixedBy other.fixedBy
  opening : related use.opening other.opening
  inner : List.Forall₂ related use.inner other.inner
  closing : related use.closing other.closing

end TypeUse

/-! ### Tokens of a schema -/

/-- Whether a field wraps a constant enum is a matter of its shape and of the first signal behind
it. -/
theorem wrapsConstantEnum_eq_head (field : Token) (rest : List Token) :
    wrapsConstantEnum field rest = (field.signal == .beginField && field.isConstant &&
      rest.head?.map Token.signal == some .beginEnum) := by
  cases rest <;> rfl

/-- A list of tokens like an enclosed one is enclosed likewise. -/
theorem enclose_of_forall₂ {related : Token → Token → Prop} {opening closing : Token}
    {inner rest others : List Token}
    (alike : List.Forall₂ related (enclose opening inner closing ++ rest) others) :
    ∃ otherOpening otherInner otherClosing otherRest,
      others = enclose otherOpening otherInner otherClosing ++ otherRest ∧
        related opening otherOpening ∧ List.Forall₂ related inner otherInner ∧
        related closing otherClosing ∧ List.Forall₂ related rest otherRest := by
  rw [enclose_append] at alike
  obtain ⟨otherOpening, behind, alikeOpening, alikeBehind, rfl⟩ :=
    List.forall₂_cons_left_iff.mp alike
  obtain ⟨otherInner, otherClosing, otherRest, rfl, alikeInner, alikeClosing, alikeRest⟩ :=
    split_of_forall₂ alikeBehind
  exact ⟨otherOpening, otherInner, otherClosing, otherRest, (enclose_append _ _ _ _).symm,
    alikeOpening, alikeInner, alikeClosing, alikeRest⟩

/-- Whether two tokens are alike in what makes the shape of a schema. -/
structure Token.SameShape (token other : Token) : Prop where
  signal : other.signal = token.signal
  name : other.name = token.name
  constant : other.isConstant = token.isConstant
  id : other.id = token.id

namespace TypeUse

theorem name_reduced (use : TypeUse) : use.reduced.name = use.name := by
  rw [reduced]
  split
  · exact name_emptiedConstant use.opening
  · rfl

/-- A type that is fixed is stored with the value that the field refers to. -/
theorem Resolved.single {use : TypeUse} (resolved : use.Resolved) : use.reduced.Single := by
  intro fixed
  rw [reduced] at fixed ⊢
  split at fixed
  · cases fixed
  · rename_i field isField
    obtain ⟨value, isValue⟩ := Option.isSome_iff_exists.mp (resolved field isField)
    exact ⟨value.emptied.fixed, by rw [isValue]; rfl⟩

/-- A type that ends once does so where it is stored. -/
theorem EndsOnce.reduced {use : TypeUse} (endsOnce : use.EndsOnce) : use.reduced.EndsOnce := by
  rw [TypeUse.reduced]
  split
  · refine List.forall_mem_map.mpr fun token member => ?_
    rw [Token.isNamed, signal_emptiedConstant, name_emptiedConstant, signal_emptiedConstant,
      name_emptiedConstant]
    exact endsOnce token member
  · refine List.forall_mem_map.mpr fun token member => ?_
    exact endsOnce token (List.mem_of_find?_eq_some (Option.mem_toList.mp member))

section

variable {related : Token → Token → Prop} {use other : TypeUse}

theorem Alike.tokens (alike : use.Alike related other) :
    List.Forall₂ related use.tokens other.tokens :=
  .cons alike.opening (List.rel_append alike.inner (.cons alike.closing .nil))

theorem Alike.single (alike : use.Alike related other) (single : use.Single) : other.Single := by
  intro fixed
  have fixedToo : use.fixedBy.isSome := by
    have sameField := alike.fixedBy
    generalize use.fixedBy = field at sameField ⊢
    generalize other.fixedBy = otherField at sameField fixed
    cases sameField with
    | none => cases fixed
    | some => rfl
  obtain ⟨value, isValue⟩ := single fixedToo
  have inner := alike.inner
  rw [isValue] at inner
  obtain ⟨otherValue, rest, _, noRest, isOther⟩ := List.forall₂_cons_left_iff.mp inner
  cases noRest
  exact ⟨otherValue, isOther⟩

theorem Alike.endsOnce (keeps : ∀ token other, related token other → token.SameShape other)
    (alike : use.Alike related other) (endsOnce : use.EndsOnce) : other.EndsOnce := by
  intro otherToken member
  obtain ⟨token, isToken, same⟩ := exists_of_forall₂ alike.inner member
  have unnamed := endsOnce token isToken
  rwa [Token.isNamed, (keeps _ _ same).signal, (keeps _ _ same).name,
    (keeps _ _ alike.opening).name, (keeps _ _ alike.closing).signal]

end

end TypeUse

/-- The uses of types in a construct: in a composite those inside it behind its own, in an enum or a
set its own alone. -/
def Component.uses (component : Component) (own : TypeUse) (inside : List TypeUse) :
    List TypeUse :=
  match component with
  | .composite => own :: inside
  | .enumeration | .set => [own]
  | .message | .field | .group | .varData => inside

theorem Component.uses_of_not_isType {component : Component} (noType : component.isType = false)
    (own : TypeUse) (inside : List TypeUse) : component.uses own inside = inside := by
  cases component <;> first | rfl | cases noType

theorem Component.map_uses (component : Component) (change : TypeUse → TypeUse) (own : TypeUse)
    (inside : List TypeUse) :
    (component.uses own inside).map change = component.uses (change own) (inside.map change) := by
  cases component <;> rfl

theorem Component.mem_uses {component : Component} {own use : TypeUse} {inside : List TypeUse}
    (member : use ∈ component.uses own inside) :
    (component.isType = true ∧ use = own) ∨ use ∈ inside := by
  cases component
  case composite => exact (List.mem_cons.mp member).imp_left (⟨rfl, ·⟩)
  case enumeration | set => exact .inl ⟨rfl, List.mem_singleton.mp member⟩
  all_goals exact .inr member

/-- Alike constructs have alike uses. -/
theorem Component.uses_alike {related : Token → Token → Prop} (component : Component)
    {own other : TypeUse} {inside otherInside : List TypeUse} (alike : own.Alike related other)
    (alikeInside : List.Forall₂ (TypeUse.Alike related) inside otherInside) :
    List.Forall₂ (TypeUse.Alike related) (component.uses own inside)
      (component.uses other otherInside) := by
  cases component
  case composite => exact .cons alike alikeInside
  case enumeration | set => exact .cons alike .nil
  all_goals exact alikeInside

/-- The tokens of a schema, nested and with one name on both ends of each construct, and the uses of
types among them.  The enum of a constant field holds nothing but values and stands within no type.
The flag tells whether the tokens themselves stand within a type. -/
inductive SchemaTokens : Bool → List Token → List TypeUse → Prop where
  | nil {insideType : Bool} : SchemaTokens insideType [] []
  | leaf {insideType : Bool} {token : Token} {rest : List Token} {uses : List TypeUse}
      (opensNothing : token.signal.opens? = none) (closesNothing : token.signal.closes? = none)
      (later : SchemaTokens insideType rest uses) : SchemaTokens insideType (token :: rest) uses
  | construct {insideType : Bool} {component : Component} {opening closing : Token}
      {inner rest : List Token} {innerUses uses : List TypeUse}
      (opens : opening.signal.opens? = some component)
      (closes : closing.signal.closes? = some component) (noMessage : component ≠ .message)
      (named : closing.name = opening.name) (plain : wrapsConstantEnum opening inner = false)
      (inside : SchemaTokens (insideType || component.isType) inner innerUses)
      (later : SchemaTokens insideType rest uses) :
      SchemaTokens insideType (enclose opening inner closing ++ rest)
        (component.uses { opening, inner, closing } innerUses ++ uses)
  | constantField {field opening closing ending : Token} {values behind rest : List Token}
      {innerUses uses : List TypeUse}
      (isField : field.signal = .beginField) (constant : field.isConstant = true)
      (opens : opening.signal = .beginEnum)
      (areValues : ∀ value ∈ values, value.signal = .validValue)
      (closes : closing.signal = .endEnum) (named : closing.name = opening.name)
      (endsField : ending.signal = .endField) (fieldNamed : ending.name = field.name)
      (inside : SchemaTokens false behind innerUses) (later : SchemaTokens false rest uses) :
      SchemaTokens false (enclose field (enclose opening values closing ++ behind) ending ++ rest)
        ({ fixedBy := some field, opening, inner := values, closing } :: (innerUses ++ uses))

namespace SchemaTokens

variable {insideType : Bool} {tokens : List Token} {uses : List TypeUse}

/-! ### Shape -/

/-- A single construct of a schema. -/
theorem alone {component : Component} {opening closing : Token}
    {inner : List Token} {innerUses : List TypeUse}
    (opens : opening.signal.opens? = some component)
    (closes : closing.signal.closes? = some component) (noMessage : component ≠ .message)
    (named : closing.name = opening.name) (plain : wrapsConstantEnum opening inner = false)
    (inside : SchemaTokens (insideType || component.isType) inner innerUses) :
    SchemaTokens insideType (enclose opening inner closing)
      (component.uses { opening, inner, closing } innerUses) := by
  have whole := construct opens closes noMessage named plain inside .nil
  rwa [List.append_nil, List.append_nil] at whole

theorem nested_values {values : List Token}
    (areValues : ∀ value ∈ values, value.signal = .validValue) : Nested values := by
  induction values with
  | nil => exact .nil
  | cons value values ih =>
      rw [List.forall_mem_cons] at areValues
      exact .leaf ⟨congrArg Signal.opens? areValues.1, congrArg Signal.closes? areValues.1⟩
        (ih areValues.2)

theorem nested (schema : SchemaTokens insideType tokens uses) : Nested tokens := by
  induction schema with
  | nil => exact .nil
  | leaf opensNothing closesNothing _ ih => exact .leaf ⟨opensNothing, closesNothing⟩ ih
  | construct opens closes noMessage named _ _ _ ihInside ihLater =>
      exact .construct opens closes (.of_opens opens noMessage named) ihInside ihLater
  | @constantField field opening closing ending values behind rest innerUses uses isField constant
      opens areValues closes named endsField fieldNamed _ _ ihInside ihLater =>
      have opensField : field.signal.opens? = some .field := congrArg Signal.opens? isField
      have closesField : ending.signal.closes? = some .field :=
        congrArg Signal.closes? endsField
      have opensEnum : opening.signal.opens? = some .enumeration := congrArg Signal.opens? opens
      have closesEnum : closing.signal.closes? = some .enumeration :=
        congrArg Signal.closes? closes
      have enum := Nests.construct opensEnum closesEnum (.of_opens opensEnum (by decide) named)
        (nested_values areValues) ihInside
      exact .construct opensField closesField (.of_opens opensField (by decide) fieldNamed) enum
        ihLater

/-- Every type that is used is a nested construct, and one that is fixed is an enum. -/
theorem formed (schema : SchemaTokens insideType tokens uses) : ∀ use ∈ uses, use.Formed := by
  induction schema with
  | nil => exact fun _ member => absurd member List.not_mem_nil
  | leaf _ _ _ ih => exact ih
  | @construct insideType component opening closing inner rest innerUses uses opens closes
      noMessage named _ inside _ ihInside ihLater =>
      rw [List.forall_mem_append]
      refine ⟨fun use member => ?_, ihLater⟩
      rcases Component.mem_uses member with ⟨_, rfl⟩ | isInside
      · exact ⟨.enclosed opens closes (.of_opens opens noMessage named) inside.nested, nofun, nofun⟩
      · exact ihInside use isInside
  | @constantField field opening closing ending values behind rest innerUses uses _ _ opens
      areValues closes named _ _ _ _ ihInside ihLater =>
      have opensEnum : opening.signal.opens? = some .enumeration := congrArg Signal.opens? opens
      have closesEnum : closing.signal.closes? = some .enumeration :=
        congrArg Signal.closes? closes
      rw [List.forall_mem_cons, List.forall_mem_append]
      have enum := Nests.enclosed opensEnum closesEnum (.of_opens opensEnum (by decide) named)
        (nested_values areValues)
      exact ⟨⟨enum, fun _ => opens, fun _ => areValues⟩, ihInside, ihLater⟩

/-- No type is fixed within another. -/
theorem unfixed (schema : SchemaTokens insideType tokens uses) (inType : insideType = true) :
    ∀ use ∈ uses, use.fixedBy = none := by
  induction schema with
  | nil => exact fun _ member => absurd member List.not_mem_nil
  | leaf _ _ _ ih => exact ih inType
  | @construct insideType component opening closing inner rest innerUses uses _ _ _ _ _ _ _
      ihInside ihLater =>
      rw [List.forall_mem_append]
      refine ⟨fun use member => ?_, ihLater inType⟩
      rcases Component.mem_uses member with ⟨_, rfl⟩ | isInside
      · rfl
      · exact ihInside (by rw [inType]; rfl) use isInside
  | constantField => cases inType

/-- Where every type that is fixed holds one value, the tokens are shaped like stored ones. -/
theorem shaped (schema : SchemaTokens insideType tokens uses)
    (single : ∀ use ∈ uses, use.Single) : Shaped insideType tokens := by
  induction schema with
  | nil => exact .nil
  | leaf opensNothing closesNothing _ ih => exact .leaf opensNothing closesNothing (ih single)
  | @construct insideType component opening closing inner rest innerUses uses opens closes
      noMessage named plain inside later ihInside ihLater =>
      rw [List.forall_mem_append] at single
      refine .construct opens closes noMessage named plain (ihInside ?_) (ihLater single.2)
      cases isType : component.isType with
      | false =>
          rw [Component.uses_of_not_isType isType] at single
          exact single.1
      | true =>
          intro use member fixed
          rw [inside.unfixed (by rw [isType, Bool.or_true]) use member] at fixed
          cases fixed
  | @constantField field opening closing ending values behind rest innerUses uses isField constant
      opens areValues closes named endsField fieldNamed _ _ ihInside ihLater =>
      rw [List.forall_mem_cons, List.forall_mem_append] at single
      obtain ⟨value, rfl⟩ := single.1 rfl
      exact .constantField isField constant opens (areValues value (List.mem_singleton.mpr rfl))
        closes named endsField fieldNamed (ihInside single.2.1) (ihLater single.2.2)

/-! ### Alike tokens -/

/-- Tokens that are alike in shape, one by one, are tokens of a schema together. -/
theorem transfer {related : Token → Token → Prop}
    (keeps : ∀ token other, related token other → token.SameShape other)
    (schema : SchemaTokens insideType tokens uses) :
    ∀ {others : List Token}, List.Forall₂ related tokens others →
      ∃ otherUses, SchemaTokens insideType others otherUses ∧
        List.Forall₂ (TypeUse.Alike related) uses otherUses := by
  induction schema with
  | nil =>
      intro others alike
      cases alike
      exact ⟨[], .nil, .nil⟩
  | @leaf insideType token rest uses opensNothing closesNothing _ ih =>
      intro others alike
      obtain ⟨other, otherRest, alikeFirst, alikeRest, rfl⟩ := List.forall₂_cons_left_iff.mp alike
      obtain ⟨otherUses, schemaRest, alikeUses⟩ := ih alikeRest
      have signal := (keeps _ _ alikeFirst).signal
      exact ⟨otherUses, .leaf (by rw [signal, opensNothing]) (by rw [signal, closesNothing])
        schemaRest, alikeUses⟩
  | @construct insideType component opening closing inner rest innerUses uses opens closes
      noMessage named plain _ _ ihInside ihLater =>
      intro others alike
      obtain ⟨otherOpening, otherInner, otherClosing, otherRest, rfl, alikeOpening, alikeInner,
        alikeClosing, alikeRest⟩ := enclose_of_forall₂ alike
      obtain ⟨otherInnerUses, schemaInner, alikeInnerUses⟩ := ihInside alikeInner
      obtain ⟨otherUses, schemaRest, alikeUses⟩ := ihLater alikeRest
      have sameOpening := keeps _ _ alikeOpening
      have sameClosing := keeps _ _ alikeClosing
      have otherPlain : wrapsConstantEnum otherOpening otherInner = false := by
        have sameHead : otherInner.head?.map Token.signal = inner.head?.map Token.signal := by
          cases alikeInner with
          | nil => rfl
          | cons first _ => exact congrArg some (keeps _ _ first).signal
        rwa [wrapsConstantEnum_eq_head, sameOpening.signal, sameOpening.constant, sameHead,
          ← wrapsConstantEnum_eq_head]
      refine ⟨_, .construct (by rw [sameOpening.signal, opens]) (by rw [sameClosing.signal, closes])
        noMessage (by rw [sameClosing.name, sameOpening.name, named]) otherPlain schemaInner
        schemaRest, List.rel_append ?_ alikeUses⟩
      exact component.uses_alike ⟨.none, alikeOpening, alikeInner, alikeClosing⟩ alikeInnerUses
  | @constantField field opening closing ending values behind rest innerUses uses isField constant
      opens areValues closes named endsField fieldNamed _ _ ihInside ihLater =>
      intro others alike
      obtain ⟨otherField, otherInner, otherEnding, otherRest, rfl, alikeField, alikeInner,
        alikeEnding, alikeRest⟩ := enclose_of_forall₂ alike
      obtain ⟨otherOpening, otherValues, otherClosing, otherBehind, rfl, alikeOpening, alikeValues,
        alikeClosing, alikeBehind⟩ := enclose_of_forall₂ alikeInner
      obtain ⟨otherInnerUses, schemaBehind, alikeInnerUses⟩ := ihInside alikeBehind
      obtain ⟨otherUses, schemaRest, alikeUses⟩ := ihLater alikeRest
      have sameField := keeps _ _ alikeField
      have sameOpening := keeps _ _ alikeOpening
      have sameClosing := keeps _ _ alikeClosing
      have sameEnding := keeps _ _ alikeEnding
      have areOtherValues : ∀ value ∈ otherValues, value.signal = .validValue := by
        intro other member
        obtain ⟨value, isValue, alikeValue⟩ := exists_of_forall₂ alikeValues member
        rw [(keeps _ _ alikeValue).signal, areValues value isValue]
      refine ⟨_, .constantField (by rw [sameField.signal, isField])
        (by rw [sameField.constant, constant]) (by rw [sameOpening.signal, opens]) areOtherValues
        (by rw [sameClosing.signal, closes]) (by rw [sameClosing.name, sameOpening.name, named])
        (by rw [sameEnding.signal, endsField])
        (by rw [sameEnding.name, sameField.name, fieldNamed]) schemaBehind schemaRest,
        .cons ⟨.some alikeField, alikeOpening, alikeValues, alikeClosing⟩
          (List.rel_append alikeInnerUses alikeUses)⟩

/-! ### Captured types -/

/-- A construct holds its own type and those inside it. -/
theorem capturesTo_construct {component : Component} {opening closing : Token}
    {inner : List Token} {innerUses : List TypeUse}
    (opens : opening.signal.opens? = some component)
    (closes : closing.signal.closes? = some component) (named : closing.name = opening.name)
    (endsOnce : ∀ use ∈ component.uses { opening, inner, closing } innerUses, use.EndsOnce)
    (inside : (∀ use ∈ innerUses, use.EndsOnce) →
      CapturesTo inner (innerUses.map TypeUse.captured)) :
    CapturesTo (enclose opening inner closing)
      ((component.uses { opening, inner, closing } innerUses).map TypeUse.captured) := by
  cases isType : component.isType with
  | false =>
      rw [Component.uses_of_not_isType isType] at endsOnce ⊢
      have closingAlone : CapturesTo [closing] [] :=
        .cons (typeClosing?_of_opens?_eq_none (opens?_eq_none_of_closes? closes)) .nil
      have whole := (inside endsOnce).append closingAlone
      rw [List.append_nil] at whole
      exact .cons (typeClosing?_of_not_isType opens isType) whole
  | true =>
      have typeOpens := typeClosing?_of_opens? opens closes isType
      have opensAs := (Signal.opens?_eq_some_iff _ _).mp opens
      cases component
      case composite =>
          rw [Component.uses, List.forall_mem_cons] at endsOnce
          exact .type typeOpens named endsOnce.1 (fun _ => inside endsOnce.2)
            fun other => absurd opensAs.symm other
      case enumeration | set =>
          refine .type typeOpens named (endsOnce _ (List.mem_singleton.mpr rfl))
            (fun composite => ?_) fun _ => rfl
          rw [← opensAs] at composite
          cases composite
      all_goals cases isType

/-- An enum holds its own type. -/
theorem capturesTo_enum {opening closing : Token} {values : List Token}
    (opens : opening.signal = .beginEnum) (areValues : ∀ value ∈ values, value.signal = .validValue)
    (closes : closing.signal = .endEnum) (named : closing.name = opening.name) :
    CapturesTo (enclose opening values closing)
      [(opening.name, enclose opening values closing)] := by
  refine .type (by rw [opens, closes]; rfl) named (fun value member => ?_)
    (fun composite => ?_) fun _ => rfl
  · rw [Token.isNamed, closes, areValues value member]
    rfl
  · rw [opens] at composite
    cases composite

/-- The types of a schema are captured where they are used if each of them ends once. -/
theorem capturesTo (schema : SchemaTokens insideType tokens uses)
    (endsOnce : ∀ use ∈ uses, use.EndsOnce) :
    CapturesTo tokens (uses.map TypeUse.captured) := by
  induction schema with
  | nil => exact .nil
  | leaf opensNothing _ _ ih =>
      exact .cons (typeClosing?_of_opens?_eq_none opensNothing) (ih endsOnce)
  | construct opens closes _ named _ _ _ ihInside ihLater =>
      rw [List.forall_mem_append] at endsOnce
      rw [List.map_append]
      exact (capturesTo_construct opens closes named endsOnce.1 ihInside).append
        (ihLater endsOnce.2)
  | @constantField field opening closing ending values behind rest innerUses uses isField _ opens
      areValues closes named endsField _ _ _ ihInside ihLater =>
      rw [List.forall_mem_cons, List.forall_mem_append] at endsOnce
      have fieldNoType : typeClosing? field.signal = none := by rw [isField]; rfl
      have endingNoType : typeClosing? ending.signal = none := by rw [endsField]; rfl
      have enum := capturesTo_enum opens areValues closes named
      have endingAlone : CapturesTo [ending] [] := .cons endingNoType .nil
      have inField := (enum.append (ihInside endsOnce.2.1)).append endingAlone
      rw [List.append_nil] at inField
      rw [List.map_cons, List.map_append]
      exact (CapturesTo.cons fieldNoType inField).append (ihLater endsOnce.2.2)

/-- The types of a schema end once if they were captured and could be measured. -/
theorem endsOnce (schema : SchemaTokens insideType tokens uses)
    (accepted : CaptureAccepted tokens) : ∀ use ∈ uses, use.EndsOnce := by
  induction schema with
  | nil => exact fun _ member => absurd member List.not_mem_nil
  | leaf opensNothing _ _ ih =>
      exact ih (accepted.tail (typeClosing?_of_opens?_eq_none opensNothing))
  | @construct insideType component opening closing inner rest innerUses uses opens closes
      noMessage named plain inside _ ihInside ihLater =>
      have own : ∀ use ∈ component.uses { opening, inner, closing } innerUses, use.EndsOnce := by
        have acceptedWhole := accepted.front
        cases isType : component.isType with
        | false =>
            rw [Component.uses_of_not_isType isType]
            exact ihInside (acceptedWhole.tail (typeClosing?_of_not_isType opens isType)).front
        | true =>
            obtain ⟨measured, measures⟩ := inside.nested.measuresTo
            obtain ⟨unambiguous, searched⟩ := acceptedWhole.unambiguous opens
              (typeClosing?_of_opens? opens closes isType) named measures
            cases component
            case composite =>
                rw [Component.uses, List.forall_mem_cons]
                exact ⟨unambiguous,
                  ihInside (searched ((Signal.opens?_eq_some_iff _ _).mp opens).symm)⟩
            case enumeration | set =>
                rw [Component.uses, List.forall_mem_singleton]
                exact unambiguous
            all_goals cases isType
      rw [List.forall_mem_append]
      exact ⟨own, ihLater (accepted.back
        (capturesTo_construct opens closes named own inside.capturesTo))⟩
  | @constantField field opening closing ending values behind rest innerUses uses isField constant
      opens areValues closes named endsField fieldNamed inside _ ihInside ihLater =>
      have fieldNoType : typeClosing? field.signal = none := by rw [isField]; rfl
      have endingNoType : typeClosing? ending.signal = none := by rw [endsField]; rfl
      have enum := capturesTo_enum opens areValues closes named
      have acceptedInside := accepted.front.tail fieldNoType
      rw [List.append_assoc] at acceptedInside
      have behindOnce := ihInside (acceptedInside.back enum).front
      have endingAlone : CapturesTo [ending] [] := .cons endingNoType .nil
      have inField := (enum.append (inside.capturesTo behindOnce)).append endingAlone
      rw [List.forall_mem_cons, List.forall_mem_append]
      refine ⟨fun value member => ?_, behindOnce,
        ihLater (accepted.back (.cons fieldNoType inField))⟩
      rw [Token.isNamed, closes, areValues value member]
      rfl

/-! ### Reduced constants -/

/-- What reducing the constants among the tokens of a schema comes to. -/
structure ReducedTo (insideType : Bool) (tokens : List Token) (uses : List TypeUse)
    (reduced : List Token) : Prop where
  schema : SchemaTokens insideType reduced (uses.map TypeUse.reduced)
  resolved : ∀ use ∈ uses, use.Resolved
  begins : reduced.head?.map Token.signal = tokens.head?.map Token.signal
  inType : insideType = true → reduced = tokens.map emptiedConstant

namespace ReducedTo

theorem nil : ReducedTo insideType [] [] [] :=
  ⟨.nil, fun _ member => absurd member List.not_mem_nil, rfl, fun _ => rfl⟩

theorem leaf {token : Token} {rest reduced : List Token}
    (opensNothing : token.signal.opens? = none) (closesNothing : token.signal.closes? = none)
    (later : ReducedTo insideType rest uses reduced) :
    ReducedTo insideType (token :: rest) uses (emptiedConstant token :: reduced) where
  schema := by
    rw [← signal_emptiedConstant] at opensNothing closesNothing
    exact .leaf opensNothing closesNothing later.schema
  resolved := later.resolved
  begins := congrArg some (signal_emptiedConstant token)
  inType := fun inType => congrArg (emptiedConstant token :: ·) (later.inType inType)

theorem construct {component : Component} {opening closing : Token}
    {inner rest reducedInner reduced : List Token} {innerUses : List TypeUse}
    (opens : opening.signal.opens? = some component)
    (closes : closing.signal.closes? = some component) (noMessage : component ≠ .message)
    (named : closing.name = opening.name) (plain : wrapsConstantEnum opening inner = false)
    (inside : ReducedTo (insideType || component.isType) inner innerUses reducedInner)
    (later : ReducedTo insideType rest uses reduced) :
    ReducedTo insideType (enclose opening inner closing ++ rest)
      (component.uses { opening, inner, closing } innerUses ++ uses)
      (enclose opening reducedInner closing ++ reduced) := by
  have openingEnds := emptiedConstant_of_ne (ne_encoding_of_opens? opens)
  have closingEnds := emptiedConstant_of_ne (ne_encoding_of_closes? closes)
  have reducedUses : (component.uses { opening, inner, closing } innerUses).map TypeUse.reduced =
      component.uses { opening, inner := reducedInner, closing }
        (innerUses.map TypeUse.reduced) := by
    rw [Component.map_uses]
    cases isType : component.isType with
    | false => rw [Component.uses_of_not_isType isType, Component.uses_of_not_isType isType]
    | true =>
        rw [inside.inType (by rw [isType, Bool.or_true]), TypeUse.reduced]
        simp only [openingEnds, closingEnds]
  have stillPlain : wrapsConstantEnum opening reducedInner = false := by
    rwa [wrapsConstantEnum_eq_head, inside.begins, ← wrapsConstantEnum_eq_head]
  constructor
  case schema =>
    rw [List.map_append, reducedUses]
    exact .construct opens closes noMessage named stillPlain inside.schema later.schema
  case resolved =>
    rw [List.forall_mem_append]
    refine ⟨fun use member => ?_, later.resolved⟩
    rcases Component.mem_uses member with ⟨_, rfl⟩ | isInside
    · exact fun field isField => by cases isField
    · exact inside.resolved use isInside
  case begins => rfl
  case inType =>
    intro inType
    rw [inside.inType (by rw [inType]; rfl), later.inType inType, enclose_append, enclose_append]
    simp only [List.map_cons, List.map_append, openingEnds, closingEnds]

theorem constantField {field opening kept closing ending : Token}
    {values behind rest reducedBehind reduced : List Token} {innerUses uses : List TypeUse}
    (isField : field.signal = .beginField) (constant : field.isConstant = true)
    (opens : opening.signal = .beginEnum)
    (areValues : ∀ value ∈ values, value.signal = .validValue)
    (closes : closing.signal = .endEnum) (named : closing.name = opening.name)
    (endsField : ending.signal = .endField) (fieldNamed : ending.name = field.name)
    (isKept : values.find? (fun value => refersTo (valueReference field) value.name) = some kept)
    (inside : ReducedTo false behind innerUses reducedBehind)
    (later : ReducedTo false rest uses reduced) :
    ReducedTo false (enclose field (enclose opening values closing ++ behind) ending ++ rest)
      ({ fixedBy := some field, opening, inner := values, closing } :: (innerUses ++ uses))
      (enclose field (enclose opening.emptied [kept.emptied.fixed] closing.emptied ++
        reducedBehind) ending ++ reduced) := by
  let use : TypeUse := { fixedBy := some field, opening, inner := values, closing }
  have isReferred : use.referred? field = some kept := isKept
  have reducedUse : use.reduced =
      { fixedBy := some field, opening := opening.emptied, inner := [kept.emptied.fixed],
        closing := closing.emptied } := by
    simp only [TypeUse.reduced, use]
    rw [isReferred]
    rfl
  constructor
  case schema =>
    rw [List.map_cons, List.map_append, reducedUse]
    refine .constantField isField constant opens ?_ closes named endsField fieldNamed
      inside.schema later.schema
    rw [List.forall_mem_singleton]
    exact areValues kept (List.mem_of_find?_eq_some isKept)
  case resolved =>
    rw [List.forall_mem_cons, List.forall_mem_append]
    refine ⟨fun other isOther => ?_, inside.resolved, later.resolved⟩
    cases isOther
    exact Option.isSome_iff_exists.mpr ⟨kept, isReferred⟩
  case begins => rfl
  case inType => exact fun inType => by cases inType

end ReducedTo

/-- Where the constants of a message are reduced, its tokens stay those of a schema, with each type
used as it is stored. -/
theorem reduces (schema : SchemaTokens insideType tokens uses) :
    ∀ {index : Nat} {rest out : List Token}, reduceConstants index (tokens ++ rest) = .ok out →
      ∃ reduced laterIndex later, ReducedTo insideType tokens uses reduced ∧
        reduceConstants laterIndex rest = .ok later ∧ out = reduced ++ later := by
  induction schema with
  | nil => exact fun {index rest out} accepted => ⟨[], index, out, .nil, accepted, rfl⟩
  | @leaf insideType token others uses opensNothing closesNothing _ ih =>
      intro index rest out accepted
      have plain := wrapsConstantEnum_of_ne
        (ne_beginField_of_isLeaf ⟨opensNothing, closesNothing⟩) (others ++ rest)
      obtain ⟨between, isBetween, rfl⟩ := reduceConstants_eq_ok_cons plain accepted
      obtain ⟨reduced, laterIndex, last, reducedTo, isLast, rfl⟩ := ih isBetween
      exact ⟨_, laterIndex, last, reducedTo.leaf opensNothing closesNothing, isLast, rfl⟩
  | @construct insideType component opening closing inner others innerUses uses opens closes
      noMessage named plain _ _ ihInside ihLater =>
      intro index rest out accepted
      rw [enclose_append, List.cons_append, List.append_assoc, List.cons_append] at accepted
      have plainWhole :
          wrapsConstantEnum opening (inner ++ closing :: (others ++ rest)) = false := by
        rw [wrapsConstantEnum_append closes, plain]
      obtain ⟨between, isBetween, rfl⟩ := reduceConstants_eq_ok_cons plainWhole accepted
      obtain ⟨reducedInner, innerIndex, behind, inside, isBehind, rfl⟩ := ihInside isBetween
      obtain ⟨afterwards, isAfterwards, rfl⟩ := reduceConstants_closing closes isBehind
      obtain ⟨reduced, laterIndex, last, later, isLast, rfl⟩ := ihLater isAfterwards
      refine ⟨_, laterIndex, last, .construct opens closes noMessage named plain inside later,
        isLast, ?_⟩
      rw [emptiedConstant_of_ne (ne_encoding_of_opens? opens), List.append_assoc, enclose_append]
  | @constantField field opening closing ending values behind others innerUses uses isField constant
      opens areValues closes named endsField fieldNamed _ _ ihInside ihLater =>
      intro index rest out accepted
      have endsAsField : ending.signal.closes? = some .field := congrArg Signal.closes? endsField
      have shape :
          enclose field (enclose opening values closing ++ behind) ending ++ others ++ rest =
            field :: opening :: (values ++ closing :: (behind ++ ending :: (others ++ rest))) := by
        simp [enclose]
      have within : ∀ value ∈ values, value.signal ≠ .endEnum := by
        intro value member
        rw [areValues value member]
        decide
      rw [shape] at accepted
      obtain ⟨kept, behindIndex, between, isKept, isBetween, rfl⟩ :=
        reduceConstants_constantEnum isField constant opens within closes accepted
      obtain ⟨reducedBehind, endIndex, afterwards, inside, isAfterwards, rfl⟩ :=
        ihInside isBetween
      obtain ⟨final, isFinal, rfl⟩ := reduceConstants_closing endsAsField isAfterwards
      obtain ⟨reduced, laterIndex, last, later, isLast, rfl⟩ := ihLater isFinal
      refine ⟨_, laterIndex, last, .constantField isField constant opens areValues closes named
        endsField fieldNamed isKept inside later, isLast, ?_⟩
      simp [enclose]

/-- The tokens of a type that is used are among those of the schema. -/
theorem tokens_subset (schema : SchemaTokens insideType tokens uses) :
    ∀ use ∈ uses, use.tokens ⊆ tokens := by
  induction schema with
  | nil => exact fun _ member => absurd member List.not_mem_nil
  | leaf _ _ _ ih => exact fun use member => List.subset_cons_of_subset _ (ih use member)
  | @construct insideType component opening closing inner rest innerUses uses _ _ _ _ _ _ _
      ihInside ihLater =>
      rw [List.forall_mem_append]
      constructor
      · intro use member
        rcases Component.mem_uses member with ⟨_, rfl⟩ | isInside
        · exact List.subset_append_left _ _
        · intro token isToken
          have isInner := ihInside use isInside isToken
          simp [enclose, isInner]
      · exact fun use member => List.subset_append_of_subset_right _ (ihLater use member)
  | @constantField field opening closing ending values behind rest innerUses uses _ _ _ _ _ _ _ _
      _ _ ihInside ihLater =>
      rw [List.forall_mem_cons, List.forall_mem_append]
      refine ⟨fun token isToken => ?_, fun use member token isToken => ?_, fun use member =>
        List.subset_append_of_subset_right _ (ihLater use member)⟩
      · have isEnum : token ∈ enclose opening values closing := isToken
        rw [enclose, List.cons_append, List.mem_cons, List.mem_append, List.mem_append,
          List.mem_append]
        exact .inr (.inl (.inl (.inl isEnum)))
      · have isInner := ihInside use member isToken
        simp [enclose, isInner]

end SchemaTokens

end WireSchema
