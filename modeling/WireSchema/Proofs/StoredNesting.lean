/-
Module: WireSchema.Proofs.StoredNesting
Purpose: A draft asks of a message that the tokens of each component can be paired, and no more.  So
  what it stores is nested kind by kind, however the calls to it went.  Constructs of different
  components may interleave, the two ends of one may have different names, and a leaf keeps whatever
  span it came with (`storedAlone_not_nested`).
Main exports: WhollyNested, Orderly, NestsMeasured, DraftCall, SchemaDraft.build_nested,
  storedAlone_not_nested
-/
import WireSchema.Proofs.ConstructNesting
import WireSchema.Proofs.KeptTokens
import WireSchema.Proofs.SpanPairs
import WireSchema.Proofs.TreeDecoding

namespace WireSchema

/-!
Nothing of that comes from the draft.  A message that is given in good order is stored in good order
(`build_nested`): constructs that nest, with one name on both of their ends, around leaves that span
themselves alone.  Good order has to include that the enums of constant fields hold leaves, for of
such an enum one token is kept, and that may be one that opens something.
-/

/-! ### Nesting across components -/

/-- The constructs of a list are nested, each has one name on both of its ends, and every leaf spans
itself alone. -/
structure WhollyNested (tokens : List Token) : Prop extends KindwiseNested tokens where
  named : ∀ {component : Component} {place : Nat} {token partner : Token},
    tokens[place]? = some token → token.signal.opens? = some component →
      tokens[place + token.span - 1]? = some partner → partner.name = token.name
  across : ∀ {one other : Component} {outer inner : Nat} {first second : Token},
    tokens[outer]? = some first → tokens[inner]? = some second →
      first.signal.opens? = some one → second.signal.opens? = some other →
        outer < inner → inner < outer + first.span →
          inner + second.span < outer + first.span
  single : ∀ token ∈ tokens, token.IsLeaf → token.span = 1

/-- Nested constructs, each with one name on both of its ends and with its span on the opening one,
around leaves that span themselves alone. -/
structure NestedSpans (tokens : List Token) : Prop where
  nests : Nests (fun opening inner closing =>
    closing.name = opening.name ∧ opening.span = inner.length + 2) tokens
  single : ∀ token ∈ tokens, token.IsLeaf → token.span = 1

namespace NestedSpans

variable {tokens rest inner : List Token}

theorem nil : NestedSpans [] :=
  ⟨.nil, fun _ member => absurd member List.not_mem_nil⟩

theorem leaf {token : Token} (isLeaf : token.IsLeaf) (single : token.span = 1)
    (later : NestedSpans rest) : NestedSpans (token :: rest) :=
  ⟨.leaf isLeaf later.nests, List.forall_mem_cons.mpr ⟨fun _ => single, later.single⟩⟩

theorem construct {component : Component} {opening closing : Token}
    (opens : opening.signal.opens? = some component)
    (closes : closing.signal.closes? = some component) (named : closing.name = opening.name)
    (span : opening.span = inner.length + 2) (inside : NestedSpans inner)
    (later : NestedSpans rest) : NestedSpans (enclose opening inner closing ++ rest) where
  nests := .construct opens closes ⟨named, span⟩ inside.nests later.nests
  single token member isLeaf :=
    (isLeaf.mem_construct opens closes member).elim (inside.single token · isLeaf)
      (later.single token · isLeaf)

/-- Constructs that are nested and carry their spans are nested place by place. -/
theorem whollyNested (nested : NestedSpans tokens) (kindwise : KindwiseNested tokens) :
    WhollyNested tokens where
  toKindwiseNested := kindwise
  single := nested.single
  named := by
    intro component place token partner isToken opens isPartner
    obtain ⟨inner, closing, last, isAt, ⟨named, span⟩, _⟩ := nested.nests.constructAt isToken opens
    have reach : place + token.span - 1 = last := by
      rw [span, isAt.reach]
      omega
    rw [reach, isAt.getElem?_last] at isPartner
    cases isPartner
    exact named
  across := by
    intro one other outer inner first second isFirst isSecond opensFirst opensSecond behind reaches
    obtain ⟨within, closing, last, isAt, ⟨_, span⟩, inside⟩ :=
      nested.nests.constructAt isFirst opensFirst
    have reach := isAt.reach
    rcases Nat.lt_or_ge inner last with inFront | atEnd
    · obtain ⟨place, rfl⟩ := Nat.exists_eq_add_of_le (show outer + 1 ≤ inner from behind)
      rw [isAt.getElem?_inside (by omega)] at isSecond
      obtain ⟨_, _, _, secondAt, ⟨_, secondSpan⟩, _⟩ := inside.constructAt isSecond opensSecond
      have secondReach := secondAt.reach
      have inWithin := secondAt.last_lt
      omega
    · -- the closing end opens nothing
      obtain rfl : inner = last := by omega
      rw [isAt.getElem?_last] at isSecond
      cases isSecond
      rw [opens?_eq_none_of_closes? isAt.closes] at opensSecond
      cases opensSecond

end NestedSpans

/-! ### Good order, given and stored -/

/-- Tokens in good order: leaves that span themselves and nested constructs, each with one name on
both of its ends.  The enum of a constant field holds leaves only. -/
inductive Orderly : List Token → Prop where
  | nil : Orderly []
  | leaf {token : Token} {rest : List Token} (isLeaf : token.IsLeaf) (single : token.span = 1)
      (later : Orderly rest) : Orderly (token :: rest)
  | construct {component : Component} {opening closing : Token} {inner rest : List Token}
      (opens : opening.signal.opens? = some component)
      (closes : closing.signal.closes? = some component) (named : closing.name = opening.name)
      (plain : wrapsConstantEnum opening inner = false) (inside : Orderly inner)
      (later : Orderly rest) : Orderly (enclose opening inner closing ++ rest)
  | constantField {field opening closing ending : Token} {values behind rest : List Token}
      (isField : field.signal = .beginField) (constant : field.isConstant = true)
      (opens : opening.signal = .beginEnum)
      (leaves : ∀ value ∈ values, value.IsLeaf ∧ value.span = 1)
      (closes : closing.signal = .endEnum) (named : closing.name = opening.name)
      (endsField : ending.signal = .endField) (fieldNamed : ending.name = field.name)
      (inside : Orderly behind) (later : Orderly rest) :
      Orderly (enclose field (enclose opening values closing ++ behind) ending ++ rest)

/-- Tokens that are nested with their spans once they are measured. -/
def NestsMeasured (tokens : List Token) : Prop :=
  ∃ measured, MeasuresTo tokens measured ∧ (tokens.length < spanLimit → NestedSpans measured)

namespace NestsMeasured

theorem nil : NestsMeasured [] :=
  ⟨[], .nil, fun _ => .nil⟩

theorem leaf {token : Token} {rest : List Token} (isLeaf : token.IsLeaf) (single : token.span = 1)
    (later : NestsMeasured rest) : NestsMeasured (token :: rest) := by
  obtain ⟨measured, measures, nested⟩ := later
  refine ⟨_, .leaf isLeaf.1 isLeaf.2 measures, fun countable => .leaf isLeaf single (nested ?_)⟩
  exact Nat.lt_of_succ_lt countable

theorem construct {component : Component} {opening closing : Token} {inner rest : List Token}
    (opens : opening.signal.opens? = some component)
    (closes : closing.signal.closes? = some component) (named : closing.name = opening.name)
    (inside : NestsMeasured inner) (later : NestsMeasured rest) :
    NestsMeasured (enclose opening inner closing ++ rest) := by
  obtain ⟨measuredInner, measuresInner, nestedInner⟩ := inside
  obtain ⟨measuredRest, measuresRest, nestedRest⟩ := later
  refine ⟨_, .construct opens closes measuresInner measuresRest, fun countable => ?_⟩
  rw [List.length_append, length_enclose] at countable
  refine .construct opens closes named ?_ (nestedInner (by omega)) (nestedRest (by omega))
  rw [span_enclosedSpan (by omega), measuresInner.length_eq]

end NestsMeasured

theorem reduceConstants_eq_ok_cons {index : Nat} {token : Token} {rest out : List Token}
    (plain : wrapsConstantEnum token rest = false)
    (accepted : reduceConstants index (token :: rest) = .ok out) :
    ∃ later, reduceConstants (index + 1) rest = .ok later ∧
      out = emptiedConstant token :: later := by
  rw [reduceConstants_cons plain] at accepted
  cases isLater : reduceConstants (index + 1) rest with
  | error problem =>
      rw [isLater] at accepted
      cases accepted
  | ok later =>
      rw [isLater] at accepted
      cases accepted
      exact ⟨later, rfl, rfl⟩

/-- A token that closes a construct is left as it is. -/
theorem reduceConstants_closing {index : Nat} {closing : Token} {component : Component}
    {rest out : List Token} (closes : closing.signal.closes? = some component)
    (accepted : reduceConstants index (closing :: rest) = .ok out) :
    ∃ later, reduceConstants (index + 1) rest = .ok later ∧ out = closing :: later := by
  have plain := wrapsConstantEnum_of_ne (ne_beginField_of_closes? closes) rest
  obtain ⟨later, isLater, rfl⟩ := reduceConstants_eq_ok_cons plain accepted
  rw [emptiedConstant_of_ne (ne_encoding_of_closes? closes)]
  exact ⟨later, isLater, rfl⟩

/-- A constant field in front of an enum of leaves keeps one of them. -/
theorem reduceConstants_constantEnum {index : Nat} {field opening closing : Token}
    {values rest out : List Token} (isField : field.signal = .beginField)
    (constant : field.isConstant = true) (opens : opening.signal = .beginEnum)
    (within : ∀ value ∈ values, value.signal ≠ .endEnum) (closes : closing.signal = .endEnum)
    (accepted : reduceConstants index (field :: opening :: (values ++ closing :: rest)) = .ok out) :
    ∃ kept laterIndex later,
      values.find? (fun value => refersTo (valueReference field) value.name) = some kept ∧
        reduceConstants laterIndex rest = .ok later ∧
        out = field :: opening.emptied :: kept.emptied.fixed :: closing.emptied :: later := by
  have wraps : wrapsConstantEnum field (opening :: (values ++ closing :: rest)) = true := by
    simp [wrapsConstantEnum, isField, constant, opens]
  have inEnum : ∀ value ∈ values, decide (value.signal ≠ .endEnum) = true :=
    fun value member => decide_eq_true (within value member)
  have isValues : (values ++ closing :: rest).takeWhile (·.signal ≠ .endEnum) = values := by
    rw [List.takeWhile_append_of_pos inEnum, List.takeWhile_cons_of_neg (by simp [closes]),
      List.append_nil]
  have isEnding :
      (values ++ closing :: rest).dropWhile (·.signal ≠ .endEnum) = closing :: rest := by
    rw [List.dropWhile_append_of_pos inEnum, List.dropWhile_cons_of_neg (by simp [closes])]
  rw [reduceConstants.eq_def] at accepted
  simp only [wraps, if_true] at accepted
  split at accepted
  · next noneLeft =>
      rw [isEnding] at noneLeft
      cases noneLeft
  · next last after ending =>
      rw [isEnding] at ending
      obtain ⟨rfl, rfl⟩ := List.cons.inj ending
      rw [isValues] at accepted
      split at accepted
      · cases accepted
      · next kept isKept =>
          obtain ⟨later, isLater, accepted⟩ := ok_of_bind accepted
          cases accepted
          exact ⟨kept, _, later, isKept, isLater, rfl⟩

theorem ne_endEnum_of_isLeaf {token : Token} (isLeaf : token.IsLeaf) :
    token.signal ≠ .endEnum := by
  intro isEnd
  have closesNothing := isLeaf.2
  rw [isEnd] at closesNothing
  cases closesNothing

theorem ne_beginField_of_isLeaf {token : Token} (isLeaf : token.IsLeaf) :
    token.signal ≠ .beginField := by
  intro isField
  have opensNothing := isLeaf.1
  rw [isField] at opensNothing
  cases opensNothing

/-- Tokens in good order are in good order after the constants among them were reduced, wherever
they stand. -/
theorem Orderly.reduced {tokens : List Token} (orderly : Orderly tokens) :
    ∀ {index : Nat} {rest out : List Token}, reduceConstants index (tokens ++ rest) = .ok out →
      ∃ reduced laterIndex later, NestsMeasured reduced ∧
        reduceConstants laterIndex rest = .ok later ∧ out = reduced ++ later := by
  induction orderly with
  | nil =>
      intro index rest out accepted
      exact ⟨[], index, out, .nil, accepted, rfl⟩
  | @leaf token others isLeaf single later ih =>
      intro index rest out accepted
      have plain := wrapsConstantEnum_of_ne (ne_beginField_of_isLeaf isLeaf) (others ++ rest)
      obtain ⟨between, isBetween, rfl⟩ := reduceConstants_eq_ok_cons plain accepted
      obtain ⟨reduced, laterIndex, last, nested, isLast, rfl⟩ := ih isBetween
      refine ⟨_, laterIndex, last, .leaf ?_ ?_ nested, isLast, rfl⟩
      · rwa [Token.IsLeaf, signal_emptiedConstant]
      · rwa [span_emptiedConstant]
  | @construct component opening closing inner others opens closes named plain inside later ihInside
      ihLater =>
      intro index rest out accepted
      rw [enclose_append, List.cons_append, List.append_assoc, List.cons_append] at accepted
      have plainWhole :
          wrapsConstantEnum opening (inner ++ closing :: (others ++ rest)) = false := by
        rw [wrapsConstantEnum_append closes, plain]
      obtain ⟨between, isBetween, rfl⟩ := reduceConstants_eq_ok_cons plainWhole accepted
      obtain ⟨reducedInner, innerIndex, behind, nestedInner, isBehind, rfl⟩ := ihInside isBetween
      obtain ⟨afterwards, isAfterwards, rfl⟩ := reduceConstants_closing closes isBehind
      obtain ⟨reduced, laterIndex, last, nested, isLast, rfl⟩ := ihLater isAfterwards
      refine ⟨_, laterIndex, last, .construct opens closes named nestedInner nested, isLast, ?_⟩
      rw [emptiedConstant_of_ne (ne_encoding_of_opens? opens), List.append_assoc, enclose_append]
  | @constantField field opening closing ending values behind others isField constant opens leaves
      closes named endsField fieldNamed inside later ihInside ihLater =>
      intro index rest out accepted
      have opensField : field.signal.opens? = some .field := congrArg Signal.opens? isField
      have endsAsField : ending.signal.closes? = some .field := congrArg Signal.closes? endsField
      have opensEnum : opening.emptied.signal.opens? = some .enumeration :=
        congrArg Signal.opens? opens
      have closesEnum : closing.emptied.signal.closes? = some .enumeration :=
        congrArg Signal.closes? closes
      have shape :
          enclose field (enclose opening values closing ++ behind) ending ++ others ++ rest =
            field :: opening :: (values ++ closing :: (behind ++ ending :: (others ++ rest))) := by
        simp [enclose]
      have within : ∀ value ∈ values, value.signal ≠ .endEnum :=
        fun value member => ne_endEnum_of_isLeaf (leaves value member).1
      rw [shape] at accepted
      obtain ⟨kept, behindIndex, between, isKept, isBetween, rfl⟩ :=
        reduceConstants_constantEnum isField constant opens within closes accepted
      have isValue := List.mem_of_find?_eq_some isKept
      obtain ⟨reducedBehind, endIndex, afterwards, nestedBehind, isAfterwards, rfl⟩ :=
        ihInside isBetween
      obtain ⟨final, isFinal, rfl⟩ := reduceConstants_closing endsAsField isAfterwards
      obtain ⟨reduced, laterIndex, last, nested, isLast, rfl⟩ := ihLater isFinal
      have keptAlone : NestsMeasured [kept.emptied.fixed] :=
        .leaf (leaves kept isValue).1 (leaves kept isValue).2 .nil
      refine ⟨_, laterIndex, last, .construct opensField endsAsField fieldNamed
        (.construct opensEnum closesEnum named keptAlone nestedBehind) nested, isLast, ?_⟩
      simp [enclose]

/-- What is stored for a message in good order is in good order. -/
theorem Orderly.whollyNested {tokens reduced stored : List Token} (orderly : Orderly tokens)
    (isReduced : reduceConstants 0 tokens = .ok reduced)
    (isMeasured : withSpans reduced = .ok stored) (countable : reduced.length < spanLimit) :
    WhollyNested stored := by
  rw [← List.append_nil tokens] at isReduced
  obtain ⟨whole, laterIndex, later, ⟨measured, measures, nested⟩, nothing, rfl⟩ :=
    orderly.reduced isReduced
  have noneLater : later = [] := by
    rw [reduceConstants.eq_def] at nothing
    exact (Except.ok.inj nothing).symm
  subst noneLater
  have kindwise := kindwiseNested_of_withSpans isMeasured countable
  rw [List.append_nil] at isMeasured countable
  rw [withSpans_of_measuresTo measures] at isMeasured
  cases isMeasured
  exact (nested countable).whollyNested kindwise

/-! ### Tokens in good order -/

/-- A construct with nothing but its name around some tokens. -/
def around (component : Component) (name : String) (inner : List Token) : List Token :=
  enclose { signal := component.opening, name } inner { signal := component.closing, name }

/-- The token of a field that is fixed to the value of some name. -/
def fixedTo (name value : String) : Token :=
  { signal := .beginField, name
    encoding := { presence := .constant, constValue := some (.bytes (Text.utf8Bytes value)) } }

/-- A field that is fixed to the value of some name around some tokens. -/
def fixedField (name value : String) (inner : List Token) : List Token :=
  enclose (fixedTo name value) inner { signal := .endField, name }

namespace Orderly

variable {tokens inner values rest : List Token}

theorem append (orderly : Orderly tokens) (later : Orderly rest) : Orderly (tokens ++ rest) := by
  induction orderly with
  | nil => exact later
  | leaf isLeaf single _ ih => exact .leaf isLeaf single ih
  | construct opens closes named plain inside _ _ ih =>
      rw [List.append_assoc]
      exact .construct opens closes named plain inside ih
  | constantField isField constant opens leaves closes named endsField fieldNamed inside _ _ ih =>
      rw [List.append_assoc]
      exact .constantField isField constant opens leaves closes named endsField fieldNamed inside ih

theorem around (component : Component) (name : String) (inside : Orderly inner) :
    Orderly (around component name inner) := by
  have opens := (Signal.opens?_eq_some_iff component.opening component).mpr rfl
  have closes := (Signal.closes?_eq_some_iff component.closing component).mpr rfl
  have plain : wrapsConstantEnum { signal := component.opening, name } inner = false := by
    simp [wrapsConstantEnum, Token.isConstant]
  have orderly : Orderly (WireSchema.around component name inner ++ []) :=
    .construct opens closes rfl plain inside .nil
  rwa [List.append_nil] at orderly

theorem fixedField (name value enumName : String)
    (leaves : ∀ value ∈ values, value.IsLeaf ∧ value.span = 1) :
    Orderly (fixedField name value (WireSchema.around .enumeration enumName values)) := by
  have orderly : Orderly (WireSchema.fixedField name value
      (WireSchema.around .enumeration enumName values ++ []) ++ []) :=
    .constantField rfl rfl rfl leaves rfl rfl rfl rfl .nil .nil
  rwa [List.append_nil, List.append_nil] at orderly

end Orderly

/-! ### Every schema that is built -/

/-- A call to a draft: a change of what it says about itself, or a message to add. -/
inductive DraftCall where
  | configure (options : SchemaOptions) (identity : SchemaIdentity)
  | add (messageId : Int64) (tokens : List Token)

/-- The draft after a call.  A message that is not accepted leaves it as it was. -/
def SchemaDraft.after (draft : SchemaDraft) : DraftCall → SchemaDraft
  | .configure options identity => { draft with options, identity }
  | .add messageId tokens =>
    match draft.addMessage messageId tokens with
    | .ok extended => extended
    | .error _ => draft

/-- The draft after some calls in turn. -/
def SchemaDraft.afterAll (draft : SchemaDraft) (calls : List DraftCall) : SchemaDraft :=
  calls.foldl SchemaDraft.after draft

/-- A message that is stored after a call was stored before it, or the call has added it. -/
theorem SchemaDraft.stored_after {draft : SchemaDraft} {call : DraftCall} {messageId : Int64}
    {stored : List Token} (isStored : (draft.after call).messages.get? messageId = some stored) :
    draft.messages.get? messageId = some stored ∨
      ∃ given, call = .add messageId given ∧
        draft.addMessage messageId given = .ok (draft.after call) := by
  cases call with
  | configure options identity => exact .inl isStored
  | add number given =>
      cases accepted : draft.addMessage number given with
      | error problem =>
          rw [SchemaDraft.after, accepted] at isStored
          exact .inl isStored
      | ok extended =>
          rw [SchemaDraft.after, accepted] at isStored
          by_cases same : number = messageId
          · subst same
            exact .inr ⟨given, rfl, by rw [SchemaDraft.after, accepted]⟩
          · obtain ⟨_, _, _, _, _, _, _, _, _, rfl⟩ := SchemaDraft.addMessage_steps accepted
            rw [Registry.get?_insert_of_ne _ same] at isStored
            exact .inl isStored

/-- A message that is stored after some calls was stored before them, or one of them has added
it. -/
theorem SchemaDraft.stored_afterAll {calls : List DraftCall} {draft : SchemaDraft}
    {messageId : Int64} {stored : List Token}
    (isStored : (draft.afterAll calls).messages.get? messageId = some stored) :
    draft.messages.get? messageId = some stored ∨
      ∃ before given later extended, calls = before ++ .add messageId given :: later ∧
        (draft.afterAll before).addMessage messageId given = .ok extended ∧
        extended.messages.get? messageId = some stored := by
  induction calls generalizing draft with
  | nil => exact .inl isStored
  | cons call calls ih =>
      rcases ih isStored with isEarlier |
        ⟨before, given, later, extended, rfl, accepted, isLater⟩
      · rcases SchemaDraft.stored_after isEarlier with isFirst | ⟨given, rfl, accepted⟩
        · exact .inl isFirst
        · exact .inr ⟨[], given, calls, _, rfl, accepted, isEarlier⟩
      · exact .inr ⟨call :: before, given, later, extended, rfl, accepted, isLater⟩

/-- Whatever the calls to a draft were, the messages of the schema that it becomes are nested kind
by kind.  Each of them was accepted by one of the calls, and is in good order if it was given in
good order. -/
theorem SchemaDraft.build_nested {start : SchemaDraft} (noMessages : start.messages.entries = [])
    {calls : List DraftCall} {schema : Schema} (built : (start.afterAll calls).build = .ok schema)
    {messageId : Int64} {stored : List Token}
    (isStored : schema.messages.get? messageId = some stored)
    (countable : stored.length < spanLimit) :
    KindwiseNested stored ∧
      ∃ before given later extended, calls = before ++ .add messageId given :: later ∧
        (start.afterAll before).addMessage messageId given = .ok extended ∧
        extended.messages.get? messageId = some stored ∧
        (Orderly given → WhollyNested stored) := by
  obtain ⟨_, _, _, _, _, sameMessages⟩ := SchemaDraft.build_steps built
  rw [sameMessages] at isStored
  rcases SchemaDraft.stored_afterAll isStored with isEarlier |
    ⟨before, given, later, extended, isCall, accepted, isLater⟩
  · rw [Registry.get?, noMessages] at isEarlier
    cases isEarlier
  · obtain ⟨_, reduced, measured, _, _, _, isReduced, isMeasured, _, isExtended⟩ :=
      SchemaDraft.addMessage_steps accepted
    have sameStored : measured = stored := by
      rw [isExtended, Registry.get?_insert_self] at isLater
      exact Option.some.inj isLater
    subst sameStored
    have sameLength : measured.length = reduced.length := by
      simpa using congrArg List.length (unspanned_withSpans isMeasured)
    rw [sameLength] at countable
    exact ⟨kindwiseNested_of_withSpans isMeasured countable, before, given, later, extended, isCall,
      accepted, isLater, fun orderly => orderly.whollyNested isReduced isMeasured countable⟩

/-- An order with a side that is fixed, and a group of legs with a price. -/
def sideAndLegs : List Token :=
  around .message "Order"
    (fixedField "side" "SELL" (around .enumeration "Side"
        [{ signal := .validValue, name := "BUY" }, { signal := .validValue, name := "SELL" }]) ++
      around .group "legs" (around .field "price" [{ signal := .encoding, name := "cents" }]))

theorem sideAndLegs_orderly : Orderly sideAndLegs := by
  have values : ∀ value ∈ ([{ signal := .validValue, name := "BUY" },
      { signal := .validValue, name := "SELL" }] : List Token), value.IsLeaf ∧ value.span = 1 := by
    decide
  have cents : Orderly [{ signal := .encoding, name := "cents" }] :=
    .leaf (by decide) (by decide) .nil
  exact .around _ _ (.append (.fixedField _ _ _ values) (.around _ _ (.around _ _ cents)))

/-- A draft that is configured, refuses a message without tokens, and takes the order with its
legs. -/
theorem SchemaDraft.build_nested_order :
    let calls : List DraftCall :=
      [.configure {} { packageName := "orders", version := 1 }, .add 2 [], .add 1 sideAndLegs]
    emptyDraft.messages.entries = [] ∧ ∃ schema stored,
      (emptyDraft.afterAll calls).build = .ok schema ∧
      schema.messages.get? 1 = some stored ∧ stored.length < spanLimit ∧ Orderly sideAndLegs ∧
      KindwiseNested stored ∧
      ∃ before given later extended, calls = before ++ .add 1 given :: later ∧
        (emptyDraft.afterAll before).addMessage 1 given = .ok extended ∧
        extended.messages.get? 1 = some stored ∧ (Orderly given → WhollyNested stored) := by
  intro calls
  have succeeds : (emptyDraft.afterAll calls).build.toOption.isSome = true := by decide +kernel
  obtain ⟨schema, built⟩ := exists_ok_of_isSome succeeds
  have found : ∃ stored ∈ (emptyDraft.afterAll calls).build.toOption.bind (·.messages.get? 1),
      stored.length < spanLimit := by
    decide +kernel
  obtain ⟨stored, isStored, countable⟩ := found
  rw [built] at isStored
  exact ⟨rfl, schema, stored, built, isStored, countable, sideAndLegs_orderly,
    SchemaDraft.build_nested rfl built isStored countable⟩

/-! ### Messages that are not given in good order -/

/-- A field and a group that interleave. -/
def crossedMessage : List Token :=
  around .message "Order"
    [{ signal := .beginField, name := "price" }, { signal := .beginGroup, name := "legs" },
      { signal := .endField, name := "price" }, { signal := .endGroup, name := "legs" }]

/-- A field with two names. -/
def misnamedMessage : List Token :=
  around .message "Order"
    [{ signal := .beginField, name := "price" }, { signal := .endField, name := "side" }]

/-- An encoding with a span of its own. -/
def wideMessage : List Token :=
  around .message "Order"
    (around .field "price" [{ signal := .encoding, name := "cents", storedSpan := 5 }])

/-- Two fixed fields around enums that hold more than leaves. -/
def enumsOfTypes : List Token :=
  around .message "Order"
    (fixedField "first" "Price" (around .enumeration "First" (around .composite "Price" [])) ++
      fixedField "second" "Side"
        (around .enumeration "Second" (around .composite "Price" (around .enumeration "Side" []))))

theorem NestsMeasured.enclosed {component : Component} {opening closing : Token}
    {inner : List Token} (opens : opening.signal.opens? = some component)
    (closes : closing.signal.closes? = some component) (named : closing.name = opening.name)
    (inside : NestsMeasured inner) : NestsMeasured (enclose opening inner closing) := by
  have nested := NestsMeasured.construct opens closes named inside .nil
  rwa [List.append_nil] at nested

/-- Unlike what is stored for it, the message with enums of types is nested. -/
theorem enumsOfTypes_nests : NestsMeasured enumsOfTypes := by
  have emptyPrice : NestsMeasured (around .composite "Price" []) := .enclosed rfl rfl rfl .nil
  have emptySide : NestsMeasured (around .enumeration "Side" []) := .enclosed rfl rfl rfl .nil
  have first : NestsMeasured (around .enumeration "First" (around .composite "Price" [])) :=
    .enclosed rfl rfl rfl emptyPrice
  have second : NestsMeasured
      (around .enumeration "Second" (around .composite "Price" (around .enumeration "Side" []))) :=
    .enclosed rfl rfl rfl (.enclosed rfl rfl rfl emptySide)
  exact .enclosed rfl rfl rfl (.construct rfl rfl rfl first (.enclosed rfl rfl rfl second))

/-- Constructs that open at two places and overlap without one holding the other. -/
def Overlap (tokens : List Token) (outer inner : Nat) : Prop :=
  ∃ first ∈ tokens[outer]?, ∃ second ∈ tokens[inner]?,
    first.signal.opens?.isSome = true ∧ second.signal.opens?.isSome = true ∧ outer < inner ∧
      inner < outer + first.span ∧ outer + first.span ≤ inner + second.span

instance (tokens : List Token) (outer inner : Nat) : Decidable (Overlap tokens outer inner) :=
  inferInstanceAs (Decidable (∃ _ ∈ _, _))

theorem WhollyNested.not_overlap {tokens : List Token} (nested : WhollyNested tokens)
    (outer inner : Nat) : ¬ Overlap tokens outer inner := by
  rintro ⟨first, isFirst, second, isSecond, opensFirst, opensSecond, behind, reaches, beyond⟩
  obtain ⟨one, opensOne⟩ := Option.isSome_iff_exists.mp opensFirst
  obtain ⟨other, opensOther⟩ := Option.isSome_iff_exists.mp opensSecond
  have within := nested.across isFirst isSecond opensOne opensOther behind reaches
  omega

/-- A draft stores messages that interleave, have two names on one construct, or leaves of any span;
and it makes some that interleave from one that is nested, by what it keeps of an enum. -/
theorem storedAlone_not_nested :
    (∃ stored, storedAlone crossedMessage = some stored ∧ ¬ WhollyNested stored) ∧
      (∃ stored, storedAlone misnamedMessage = some stored ∧ ¬ WhollyNested stored) ∧
      (∃ stored, storedAlone wideMessage = some stored ∧ ¬ WhollyNested stored) ∧
      NestsMeasured enumsOfTypes ∧
      ∃ stored, storedAlone enumsOfTypes = some stored ∧ ¬ WhollyNested stored := by
  have crossed : ∃ stored ∈ storedAlone crossedMessage, Overlap stored 1 2 := by decide +kernel
  have misnamed : ∃ stored ∈ storedAlone misnamedMessage,
      ∃ token ∈ stored[1]?, ∃ partner ∈ stored[1 + token.span - 1]?,
        token.signal.opens? = some .field ∧ partner.name ≠ token.name := by
    decide +kernel
  have wide : ∃ stored ∈ storedAlone wideMessage,
      ∃ token ∈ stored, token.IsLeaf ∧ token.span ≠ 1 := by
    decide +kernel
  have types : ∃ stored ∈ storedAlone enumsOfTypes, Overlap stored 2 3 := by decide +kernel
  refine ⟨?crossed, ?misnamed, ?wide, enumsOfTypes_nests, ?types⟩
  case crossed =>
    obtain ⟨stored, isStored, overlap⟩ := crossed
    exact ⟨stored, isStored, fun nested => nested.not_overlap 1 2 overlap⟩
  case misnamed =>
    obtain ⟨stored, isStored, token, isToken, partner, isPartner, opens, other⟩ := misnamed
    exact ⟨stored, isStored, fun nested => other (nested.named isToken opens isPartner)⟩
  case wide =>
    obtain ⟨stored, isStored, token, isMember, isLeaf, notSingle⟩ := wide
    exact ⟨stored, isStored, fun nested => notSingle (nested.single token isMember isLeaf)⟩
  case types =>
    obtain ⟨stored, isStored, overlap⟩ := types
    exact ⟨stored, isStored, fun nested => nested.not_overlap 2 3 overlap⟩

end WireSchema
