/-
Module: WireSchema.Proofs.LoadedMessage
Purpose: A message of a schema that was stored and loaded is accepted again
  (`Addition.StoredAs.loaded`), and the types that it holds are those that the message used when it
  was first added, each as it was stored: whole, or as an enum of the one value that a constant
  field refers to.  That takes values that survive their own text (`Token.Survives`), and enums
  whose values are given and are not constants themselves (`ValuesGiven`).
Main exports: Token.Survives, ValuesGiven, SchemaMessage, Addition.StoredAs.loaded
-/
import WireSchema.Proofs.EmptyTexts
import WireSchema.Proofs.TypeUses

namespace WireSchema

/-! ### Values that come back -/

/-- Whether a value is equal to itself and is what its own text is read as, which is not empty. -/
structure Value.Survives (type : Option PrimitiveType) (value : Value) : Prop where
  equalsItself : value.agrees value = true
  reads : Value.parse (value.schemaText type) type = .ok value
  shows : value.schemaText type ≠ ""

instance (type : Option PrimitiveType) (value : Value) : Decidable (value.Survives type) :=
  decidable_of_iff (value.agrees value = true ∧
      Value.parse (value.schemaText type) type = .ok value ∧ value.schemaText type ≠ "")
    ⟨fun ⟨equalsItself, reads, shows⟩ => ⟨equalsItself, reads, shows⟩,
      fun ⟨equalsItself, reads, shows⟩ => ⟨equalsItself, reads, shows⟩⟩

/-- Whether every value of a token survives. -/
def Token.Survives (token : Token) : Prop :=
  ∀ value ∈ token.encoding.values, value.Survives token.encoding.primitiveType

instance (token : Token) : Decidable token.Survives :=
  inferInstanceAs (Decidable (∀ value ∈ token.encoding.values, _))

/-- The token as it is loaded. -/
def Token.loaded (token : Token) : Token :=
  token.pruned.reread

theorem Value.canonical_of_agrees {value : Value} (number : value.agrees value = true) :
    value.canonical = value := by
  cases value <;> try rfl
  rename_i word
  simp only [agrees, Binary64.sameNumber, Bool.and_eq_true, Bool.not_eq_true'] at number
  simp only [canonical, Binary64.canonical, number.1.1, Bool.false_eq_true, if_false]

/-- A value that survives is its own canonical form. -/
theorem Token.canonical_of_survives {token : Token} (survives : token.Survives) :
    token.canonical = token := by
  have same : ∀ content : Option Value,
      (∀ value ∈ content, value ∈ token.encoding.values) →
        content.map Value.canonical = content := by
    intro content listed
    cases content with
    | none => rfl
    | some value =>
        exact congrArg some (Value.canonical_of_agrees (survives value (listed value rfl)).1)
  have encoding : token.encoding.canonical = token.encoding := by
    simp only [Encoding.values, List.mem_append, Option.mem_toList] at same
    rw [Encoding.canonical, same _ fun value given => .inl (.inl (.inr given)),
      same _ fun value given => .inl (.inr given), same _ fun value given => .inr given,
      same _ fun value given => .inl (.inl (.inl given))]
  rw [Token.canonical, encoding]

theorem optionalAgrees_self {content : Option Value}
    (number : ∀ value ∈ content, value.agrees value = true) :
    optionalAgrees content content = true := by
  cases content with
  | none => rfl
  | some value => exact number value rfl

theorem Token.encoding_agrees_of_survives {token : Token} (survives : token.Survives) :
    token.encoding.agrees token.encoding = true := by
  have number : ∀ content : Option Value,
      (∀ value ∈ content, value ∈ token.encoding.values) → optionalAgrees content content = true :=
    fun content listed =>
      optionalAgrees_self fun value given => (survives value (listed value given)).1
  simp only [Encoding.values, List.mem_append, Option.mem_toList] at number
  simp only [Encoding.agrees, beq_self_eq_true, Bool.and_true,
    number _ fun value given => .inl (.inl (.inr given)),
    number _ fun value given => .inl (.inr given), number _ fun value given => .inr given,
    number _ fun value given => .inl (.inl (.inl given))]

theorem Token.legible_of_survives {token : Token} (survives : token.Survives) :
    token.pruned.Legible :=
  Token.pruned_legible fun value member =>
    ⟨⟨_, (survives value member).reads⟩, (survives value member).shows⟩

/-! ### Messages of a schema -/

/-- The tokens of a message around those of a schema. -/
abbrev MessageTokens (messageId : Int64) (tokens : List Token) (uses : List TypeUse) : Prop :=
  MessageShaped (SchemaTokens false · uses) messageId tokens

namespace MessageTokens

variable {messageId : Int64} {tokens : List Token} {uses : List TypeUse}

theorem formed (message : MessageTokens messageId tokens uses) : ∀ use ∈ uses, use.Formed := by
  obtain ⟨_, _, _, _, _, _, _, _, schema⟩ := message
  exact schema.formed

theorem tokens_subset (message : MessageTokens messageId tokens uses) :
    ∀ use ∈ uses, use.tokens ⊆ tokens := by
  obtain ⟨opening, body, closing, rfl, _, _, _, _, schema⟩ := message
  intro use member
  exact List.subset_cons_of_subset _
    (List.subset_append_of_subset_left _ (schema.tokens_subset use member))

theorem shaped (message : MessageTokens messageId tokens uses)
    (single : ∀ use ∈ uses, use.Single) : MessageShaped (Shaped false) messageId tokens := by
  obtain ⟨opening, body, closing, isEnclosed, opens, closes, named, numbered, schema⟩ := message
  exact ⟨opening, body, closing, isEnclosed, opens, closes, named, numbered, schema.shaped single⟩

/-- The types that a message uses are captured if each of them ends once. -/
theorem typesOf_eq (message : MessageTokens messageId tokens uses)
    (endsOnce : ∀ use ∈ uses, use.EndsOnce) :
    typesOf tokens = .ok (uses.map TypeUse.captured) := by
  obtain ⟨opening, body, closing, rfl, opens, closes, named, _, schema⟩ := message
  have opensMessage : opening.signal.opens? = some .message := congrArg Signal.opens? opens
  have closesMessage : closing.signal.closes? = some .message := congrArg Signal.closes? closes
  exact (SchemaTokens.capturesTo_construct opensMessage closesMessage named endsOnce
    schema.capturesTo).alone

/-- They do end once if they were captured and could be measured. -/
theorem endsOnce (message : MessageTokens messageId tokens uses)
    (accepted : CaptureAccepted tokens) : ∀ use ∈ uses, use.EndsOnce := by
  obtain ⟨opening, body, closing, rfl, opens, _, _, _, schema⟩ := message
  have noType : typeClosing? opening.signal = none := by rw [opens]; rfl
  exact schema.endsOnce (accepted.tail noType).front

/-- Tokens that are alike in shape, one by one, are a message together. -/
theorem transfer {related : Token → Token → Prop} {others : List Token}
    (message : MessageTokens messageId tokens uses) (alike : List.Forall₂ related tokens others)
    (keeps : ∀ token other, related token other → token.SameShape other) :
    ∃ otherUses, MessageTokens messageId others otherUses ∧
      List.Forall₂ (TypeUse.Alike related) uses otherUses := by
  obtain ⟨opening, body, closing, rfl, opens, closes, named, numbered, schema⟩ := message
  rw [← List.append_nil (enclose opening body closing)] at alike
  obtain ⟨otherOpening, otherBody, otherClosing, rest, rfl, alikeOpening, alikeBody, alikeClosing,
    alikeRest⟩ := enclose_of_forall₂ alike
  cases alikeRest
  obtain ⟨otherUses, otherSchema, alikeUses⟩ := schema.transfer keeps alikeBody
  have sameOpening := keeps _ _ alikeOpening
  have sameClosing := keeps _ _ alikeClosing
  exact ⟨otherUses, ⟨otherOpening, otherBody, otherClosing, List.append_nil _,
    by rw [sameOpening.signal, opens], by rw [sameClosing.signal, closes],
    by rw [sameClosing.name, sameOpening.name, named], by rw [sameOpening.id, numbered],
    otherSchema⟩, alikeUses⟩

/-- Where the constants of a message are reduced, it uses each type as it is stored. -/
theorem reduces {reduced : List Token} (message : MessageTokens messageId tokens uses)
    (isReduced : reduceConstants 0 tokens = .ok reduced) :
    MessageTokens messageId reduced (uses.map TypeUse.reduced) ∧ ∀ use ∈ uses, use.Resolved := by
  obtain ⟨opening, body, closing, rfl, opens, closes, named, numbered, schema⟩ := message
  have opensMessage : opening.signal.opens? = some .message := congrArg Signal.opens? opens
  have closesMessage : closing.signal.closes? = some .message := congrArg Signal.closes? closes
  have plain := wrapsConstantEnum_of_ne (by rw [opens]; decide) (body ++ [closing])
  obtain ⟨behind, isBehind, rfl⟩ := reduceConstants_eq_ok_cons plain isReduced
  obtain ⟨reducedBody, endIndex, afterwards, reducedTo, isAfterwards, rfl⟩ :=
    schema.reduces isBehind
  obtain ⟨last, isLast, rfl⟩ := reduceConstants_closing closesMessage isAfterwards
  rw [reduceConstants.eq_def] at isLast
  cases isLast
  rw [emptiedConstant_of_ne (ne_encoding_of_opens? opensMessage)]
  exact ⟨⟨opening, reducedBody, closing, rfl, opens, closes, named, numbered, reducedTo.schema⟩,
    reducedTo.resolved⟩

end MessageTokens

/-! ### A loaded message -/

/-- A property that tokens keep when they lose their length or are fixed is kept by the reduction of
constants. -/
theorem forall_of_reduceConstants {holds : Token → Prop}
    (emptied : ∀ token, holds token → holds token.emptied)
    (fixed : ∀ token, holds token → holds token.fixed) {index : Nat} {tokens out : List Token}
    (accepted : reduceConstants index tokens = .ok out) (all : ∀ token ∈ tokens, holds token) :
    ∀ token ∈ out, holds token := by
  fun_induction reduceConstants index tokens generalizing out with
  | case1 =>
      cases accepted
      exact all
  | case2 =>
      cases accepted
      exact all
  | case3 => cases accepted
  | case4 => cases accepted
  | case5 index token opening body closing after ending values reference kept named wraps =>
      rename_i ih
      obtain ⟨later, isLater, accepted⟩ := ok_of_bind accepted
      cases accepted
      have parts : values ++ closing :: after = body := by
        rw [← ending, List.takeWhile_append_dropWhile]
      rw [← parts] at all
      simp only [List.forall_mem_cons, List.forall_mem_append] at all ⊢
      obtain ⟨allToken, allOpening, allValues, allClosing, allAfter⟩ := all
      have allKept := allValues kept (List.mem_of_find?_eq_some named)
      exact ⟨allToken, emptied _ allOpening, fixed _ (emptied _ allKept), emptied _ allClosing,
        ih isLater allAfter⟩
  | case6 index token rest _ ih =>
      obtain ⟨later, isLater, accepted⟩ := ok_of_bind accepted
      cases accepted
      rw [List.forall_mem_cons] at all ⊢
      refine ⟨?_, ih isLater all.2⟩
      unfold emptiedConstant
      split
      · exact emptied _ all.1
      · exact all.1

/-- Lists of tokens that are alike but for spans, once a change is made to the first. -/
theorem forall₂_unspanned_iff {change : Token → Token} {tokens others : List Token} :
    List.Forall₂ (fun token other => other.unspanned = (change token).unspanned) tokens others ↔
      others.map Token.unspanned = tokens.map fun token => (change token).unspanned := by
  rw [← List.forall₂_eq_eq_eq, List.forall₂_map_left_iff, List.forall₂_map_right_iff]
  exact ⟨List.Forall₂.flip, List.Forall₂.flip⟩

/-- A token has its like in every list that is alike but for spans. -/
theorem exists_unspanned {tokens others : List Token}
    (same : others.map Token.unspanned = tokens.map Token.unspanned) {token : Token}
    (member : token ∈ others) : ∃ source ∈ tokens, source.unspanned = token.unspanned := by
  have alike : token.unspanned ∈ others.map Token.unspanned := List.mem_map_of_mem member
  rw [same] at alike
  exact List.mem_map.mp alike

theorem encoding_of_unspanned {first second : Token} (same : first.unspanned = second.unspanned) :
    first.encoding = second.encoding :=
  (congrArg Token.encoding same : first.unspanned.encoding = second.unspanned.encoding)

/-- What two tokens have in common that are alike but for spans and empty texts. -/
theorem Token.sameShape_of_unspanned {token other : Token}
    (same : other.unspanned = token.unspanned) : token.SameShape other where
  signal := signal_of_unspanned same
  name := name_of_unspanned same
  constant := isConstant_of_unspanned same
  id := (congrArg Token.id same : other.unspanned.id = token.unspanned.id)

/-- A use of a type in a message, and the type that is captured for it in the loaded message. -/
structure TypeUse.LoadedAs (use : TypeUse) (type : String × List Token) : Prop where
  name : type.1 = use.name
  tokens : type.2.map Token.unspanned = use.reduced.tokens.map fun token => token.pruned.unspanned

/-- A use of a type as it is stored, without empty texts, is captured as it is loaded. -/
theorem TypeUse.Alike.loadedAs {use other : TypeUse} {type : String × List Token}
    (alike : use.reduced.Alike (fun token other => other.unspanned = token.pruned.unspanned) other)
    (measured : MeasuredAs other.captured type) : use.LoadedAs type where
  name := by
    have sameName := name_of_unspanned alike.opening
    rw [measured.name, ← use.name_reduced]
    exact sameName
  tokens := measured.unspanned.trans (forall₂_unspanned_iff.mp alike.tokens)

/-- Whether each value of an enum is given, and none is itself marked as a constant. -/
def ValuesGiven (tokens : List Token) : Prop :=
  ∀ token ∈ tokens, token.signal = .validValue →
    token.encoding.constValue ≠ none ∧ token.isConstant = false

instance (tokens : List Token) : Decidable (ValuesGiven tokens) :=
  inferInstanceAs (Decidable (∀ token ∈ tokens, _))

/-- Values that are given are given in what is stored. -/
theorem valuesGiven_stored {tokens reduced stored : List Token}
    (given : ∀ token ∈ tokens, token.signal = .validValue → token.encoding.constValue ≠ none)
    (isReduced : reduceConstants 0 tokens = .ok reduced)
    (same : stored.map Token.unspanned = reduced.map Token.unspanned) :
    ∀ token ∈ stored, token.signal = .validValue → token.encoding.constValue ≠ none := by
  have givenReduced := forall_of_reduceConstants (fun _ given => given) (fun _ given => given)
    isReduced given
  intro token member
  obtain ⟨source, isSource, alike⟩ := exists_unspanned same member
  rw [← signal_of_unspanned alike, ← encoding_of_unspanned alike]
  exact givenReduced source isSource

/-- A message of a schema: its tokens, and the uses of types among them. -/
structure SchemaMessage (messageId : Int64) (tokens : List Token) (uses : List TypeUse) : Prop where
  shaped : MessageTokens messageId tokens uses
  values : ValuesGiven tokens

/-- Types that can be measured are measured together. -/
theorem exists_measured {captured : List (String × List Token)}
    (nested : ∀ type ∈ captured, Nested type.2) :
    ∃ types, List.Forall₂ MeasuredAs captured types := by
  induction captured with
  | nil => exact ⟨[], .nil⟩
  | cons first others ih =>
      rw [List.forall_mem_cons] at nested
      obtain ⟨types, measured⟩ := ih nested.2
      obtain ⟨tokens, measures⟩ := nested.1.measuresTo
      exact ⟨(first.1, tokens) :: types,
        .cons ⟨rfl, withSpans_of_measuresTo measures⟩ measured⟩

/-- The types that a message uses can be measured. -/
theorem MessageTokens.holdsTypes {messageId : Int64} {tokens : List Token} {uses : List TypeUse}
    (message : MessageTokens messageId tokens uses) (endsOnce : ∀ use ∈ uses, use.EndsOnce) :
    ∃ types, HoldsTypes tokens types ∧
      List.Forall₂ (fun use type => MeasuredAs use.captured type) uses types := by
  have nested : ∀ type ∈ uses.map TypeUse.captured, Nested type.2 :=
    List.forall_mem_map.mpr fun use member => (message.formed use member).nested
  obtain ⟨types, measured⟩ := exists_measured nested
  exact ⟨types, ⟨_, message.typesOf_eq endsOnce, measured⟩, List.forall₂_map_left_iff.mp measured⟩

/-- Tokens that survive are loaded as they were, but for spans and empty texts. -/
theorem unspanned_loaded {stored : List Token} (survive : ∀ token ∈ stored, token.Survives) :
    (stored.map Token.loaded).map Token.unspanned =
      (stored.map Token.unspanned).map Token.pruned := by
  rw [List.map_map, List.map_map]
  exact List.map_congr_left fun token member =>
    congrArg (fun token => token.unspanned.pruned)
      (Token.canonical_of_survives (survive token member))

section

variable {addition : Addition} {stored : List Token} {uses : List TypeUse}

/-- The types of a message are those that it uses. -/
theorem Addition.StoredAs.types_eq (storedAs : addition.StoredAs stored)
    (message : MessageTokens addition.messageId addition.tokens uses) :
    List.Forall₂ (fun use type => MeasuredAs use.captured type) uses addition.types ∧
      ∀ use ∈ uses, use.EndsOnce := by
  have endsOnce := message.endsOnce storedAs.held.captureAccepted
  obtain ⟨captured, isCaptured, measured⟩ := storedAs.held
  cases isCaptured.symm.trans (message.typesOf_eq endsOnce)
  exact ⟨List.forall₂_map_left_iff.mp measured, endsOnce⟩

/-- What is stored for a message keeps all but one value of the enums that its constant fields
wrap. -/
theorem Addition.StoredAs.kept (storedAs : addition.StoredAs stored)
    (message : MessageTokens addition.messageId addition.tokens uses) :
    KeptMessage addition.tokens stored := by
  obtain ⟨reduced, isReduced, isMeasured⟩ := storedAs.reduced
  obtain ⟨reducedMessage, resolved⟩ := message.reduces isReduced
  have unspanned := forall₂_unspanned_iff.mpr (unspanned_withSpans isMeasured)
  obtain ⟨storedUses, storedMessage, alike⟩ :=
    reducedMessage.transfer unspanned fun _ _ same => Token.sameShape_of_unspanned same
  refine storedAs.keptMessage (storedMessage.shaped fun use member => ?_)
  obtain ⟨reducedUse, isReducedUse, same⟩ := exists_of_forall₂ alike member
  obtain ⟨sourceUse, isSource, rfl⟩ := List.mem_map.mp isReducedUse
  exact same.single (resolved sourceUse isSource).single

/-- A stored message that is loaded can be added again, and holds the types that it uses as they are
stored. -/
theorem Addition.StoredAs.loaded (storedAs : addition.StoredAs stored)
    (message : SchemaMessage addition.messageId addition.tokens uses)
    (survive : ∀ token ∈ stored, token.Survives) :
    ∃ types storedAgain,
      (Addition.mk addition.messageId (stored.map Token.loaded) types).StoredAs storedAgain ∧
        MessageShaped Nested addition.messageId (stored.map Token.loaded) ∧
        List.Forall₂ TypeUse.LoadedAs uses types := by
  have kept := storedAs.kept message.shaped
  obtain ⟨reduced, isReduced, isMeasured⟩ := storedAs.reduced
  have sameStored := unspanned_withSpans isMeasured
  -- the message that is loaded uses each type as it is stored
  have sameLoaded : (stored.map Token.loaded).map Token.unspanned =
      reduced.map fun token => token.pruned.unspanned := by
    rw [unspanned_loaded survive, sameStored, List.map_map]
    rfl
  have keeps : ∀ token other : Token, other.unspanned = token.pruned.unspanned →
      token.SameShape other := by
    intro token other same
    obtain ⟨signal, name, constant, id⟩ := Token.sameShape_of_unspanned same
    exact ⟨signal, name, constant, id⟩
  obtain ⟨loadedUses, loadedMessage, alike⟩ :=
    (message.shaped.reduces isReduced).1.transfer (forall₂_unspanned_iff.mpr sameLoaded) keeps
  have endsOnce : ∀ use ∈ loadedUses, use.EndsOnce := by
    intro use member
    obtain ⟨reducedUse, isReducedUse, same⟩ := exists_of_forall₂ alike member
    obtain ⟨sourceUse, isSource, rfl⟩ := List.mem_map.mp isReducedUse
    exact same.endsOnce keeps ((storedAs.types_eq message.shaped).2 sourceUse isSource).reduced
  obtain ⟨types, held, measured⟩ := loadedMessage.holdsTypes endsOnce
  have loadedAs : List.Forall₂ TypeUse.LoadedAs uses types :=
    forall₂_trans (List.forall₂_map_left_iff.mp alike) measured
      fun alike measured => alike.loadedAs measured
  -- it passes every other check
  have split : stored.map Token.loaded = (stored.map Token.pruned).map Token.reread := by
    rw [List.map_map]
    rfl
  have valuesGiven := valuesGiven_stored
    (fun token member isValue => (message.values token member isValue).1) isReduced sameStored
  have given := kept.constantGiven (kept.given_of_checked storedAs.checked) valuesGiven
  have checked := kept.pruned.checked addition.messageId (List.forall_mem_map.mpr given)
  obtain ⟨again, measures⟩ := kept.pruned.measuresTo
  have sameSignals : ((stored.map Token.pruned).map Token.reread).map Token.signal =
      (stored.map Token.pruned).map Token.signal := by
    rw [List.map_map]
    rfl
  have isMeasuredAgain := withSpans_of_measuresTo (measures.respan sameSignals)
  have irreducible := kept.pruned.irreducible.alone
  rw [← split] at checked isMeasuredAgain irreducible
  exact ⟨types, _, ⟨checked, held, _, irreducible, isMeasuredAgain⟩,
    loadedMessage.imp SchemaTokens.nested, loadedAs⟩

/-- Every value that is stored of a type is equal to itself. -/
theorem Addition.StoredAs.agrees (storedAs : addition.StoredAs stored)
    (message : MessageTokens addition.messageId addition.tokens uses)
    (survive : ∀ token ∈ stored, token.Survives) :
    ∀ use ∈ uses, ∀ token ∈ use.reduced.tokens, token.encoding.agrees token.encoding = true := by
  obtain ⟨reduced, isReduced, isMeasured⟩ := storedAs.reduced
  intro use member token isToken
  have isReducedToken := (message.reduces isReduced).1.tokens_subset use.reduced
    (List.mem_map_of_mem member) isToken
  obtain ⟨source, isSource, same⟩ :=
    exists_unspanned (unspanned_withSpans isMeasured).symm isReducedToken
  rw [← encoding_of_unspanned same]
  exact Token.encoding_agrees_of_survives (survive source isSource)

end

end WireSchema
