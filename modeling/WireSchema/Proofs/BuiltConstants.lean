/-
Module: WireSchema.Proofs.BuiltConstants
Purpose: The constants of a schema that was built (`build_constants`).  In its messages every
  constant has its value, but for the one that is kept of the enum of a constant field, which is
  marked constant only after constants were looked at; every constant encoding has lost its length,
  and so have the three tokens that are left of such an enum.  Reading a message tells constants as
  the schema fixes them (`ReadsConstants`).
Main exports: EnumReduced, ConstantsReduced, StandsAsGiven, SchemaDraft.build_constants
-/
import WireSchema.Proofs.DecodedConstants
import WireSchema.Proofs.LoadedMessage
import WireSchema.Proofs.StoredNesting

namespace WireSchema

/-!
The length is taken from constant encodings and from those enums alone.  A constant field keeps the
length that it came with, and so does everything in the types of a schema: they are captured before
any constant is reduced, and hold each token as it was given, but for its span.
-/

/-! ### Reduced messages -/

/-- A constant field in front of an enum stands at a place of a list. -/
def FixesEnum (tokens : List Token) (place : Nat) : Prop :=
  ∃ field opening, tokens[place]? = some field ∧ tokens[place + 1]? = some opening ∧
    field.signal = .beginField ∧ field.isConstant = true ∧ opening.signal = .beginEnum

/-- What is left of the enum of a constant field: one value between both ends, all without
length. -/
def EnumReduced (tokens : List Token) (place : Nat) : Prop :=
  ∃ opening kept closing, tokens[place + 1]? = some opening ∧ tokens[place + 2]? = some kept ∧
    tokens[place + 3]? = some closing ∧ opening.encodedLength = 0 ∧ kept.isConstant = true ∧
    kept.encodedLength = 0 ∧ closing.signal = .endEnum ∧ closing.encodedLength = 0

/-- The constants of a message are reduced.  Each has its value, but for the one that is kept of the
enum of a constant field, and no constant encoding has a length. -/
structure ConstantsReduced (tokens : List Token) : Prop where
  enums : ∀ place, FixesEnum tokens place → EnumReduced tokens place
  given : ∀ place token, tokens[place]? = some token → token.isConstant = true →
    token.encoding.constValue ≠ none ∨ ∃ start, FixesEnum tokens start ∧ place = start + 2
  emptied : ∀ token ∈ tokens, token.signal = .encoding → token.isConstant = true →
    token.encodedLength = 0

variable {token : Token} {rest : List Token} {place : Nat}

theorem fixesEnum_succ : FixesEnum (token :: rest) (place + 1) ↔ FixesEnum rest place := by
  simp only [FixesEnum, List.getElem?_cons_succ]

theorem EnumReduced.succ (reduced : EnumReduced rest place) :
    EnumReduced (token :: rest) (place + 1) := by
  simpa only [EnumReduced, List.getElem?_cons_succ, Nat.add_right_comm place 1] using reduced

theorem fixesEnum_zero : FixesEnum (token :: rest) 0 ↔ wrapsConstantEnum token rest = true := by
  cases rest with
  | nil => simp [FixesEnum, wrapsConstantEnum]
  | cons next others => simp [FixesEnum, wrapsConstantEnum, and_assoc]

namespace ConstantsReduced

theorem nil : ConstantsReduced [] where
  enums := by
    rintro place ⟨field, opening, isField, _⟩
    cases isField
  given := by
    intro place token isToken
    cases isToken
  emptied := fun _ member => nomatch member

/-- A token that is no constant field in front of an enum. -/
theorem cons (plain : wrapsConstantEnum token rest = false) (given : token.ConstantGiven)
    (emptied : token.signal = .encoding → token.isConstant = true → token.encodedLength = 0)
    (later : ConstantsReduced rest) : ConstantsReduced (token :: rest) where
  enums := by
    intro place fixes
    cases place with
    | zero =>
        rw [fixesEnum_zero, plain] at fixes
        cases fixes
    | succ place => exact (later.enums place (fixesEnum_succ.mp fixes)).succ
  given := by
    intro place found isFound constant
    cases place with
    | zero =>
        cases isFound
        exact .inl (given constant)
    | succ place =>
        rcases later.given place found isFound constant with value | ⟨start, fixes, rfl⟩
        · exact .inl value
        · exact .inr ⟨start + 1, fixesEnum_succ.mpr fixes, rfl⟩
  emptied := List.forall_mem_cons.mpr ⟨emptied, later.emptied⟩

/-- What a constant field around an enum becomes. -/
theorem constantEnum {field opening kept closing : Token}
    (wraps : wrapsConstantEnum field (opening :: kept :: closing :: rest) = true)
    (isKept : kept.isConstant = true) (closes : closing.signal = .endEnum)
    (empty : opening.encodedLength = 0 ∧ kept.encodedLength = 0 ∧ closing.encodedLength = 0)
    (given : field.ConstantGiven ∧ opening.ConstantGiven ∧ closing.ConstantGiven)
    (later : ConstantsReduced rest) :
    ConstantsReduced (field :: opening :: kept :: closing :: rest) := by
  have fixes : FixesEnum (field :: opening :: kept :: closing :: rest) 0 :=
    fixesEnum_zero.mpr wraps
  have isField := signal_of_wrapsConstantEnum wraps
  have opens : opening.signal = .beginEnum := by
    simp only [wrapsConstantEnum, Bool.and_eq_true, beq_iff_eq] at wraps
    exact wraps.2
  have afterOpening : wrapsConstantEnum opening (kept :: closing :: rest) = false :=
    wrapsConstantEnum_of_ne (by rw [opens]; decide) _
  have afterKept : wrapsConstantEnum kept (closing :: rest) = false := by
    simp [wrapsConstantEnum, closes]
  have behind : ConstantsReduced (closing :: rest) :=
    later.cons (wrapsConstantEnum_of_ne (by rw [closes]; decide) _) given.2.2
      fun _ _ => empty.2.2
  refine ⟨fun place fixesThere => ?enums, fun place token isToken constant => ?given, ?emptied⟩
  case enums =>
    obtain _ | _ | _ | place := place
    · exact ⟨opening, kept, closing, rfl, rfl, rfl, empty.1, isKept, empty.2.1, closes, empty.2.2⟩
    · rw [fixesEnum_succ, fixesEnum_zero, afterOpening] at fixesThere
      cases fixesThere
    · rw [fixesEnum_succ, fixesEnum_succ, fixesEnum_zero, afterKept] at fixesThere
      cases fixesThere
    · rw [fixesEnum_succ, fixesEnum_succ, fixesEnum_succ] at fixesThere
      exact (behind.enums place fixesThere).succ.succ.succ
  case given =>
    obtain _ | _ | _ | place := place
    · cases isToken
      exact .inl (given.1 constant)
    · cases isToken
      exact .inl (given.2.1 constant)
    · exact .inr ⟨0, fixes, rfl⟩
    · rcases behind.given place token isToken constant with value | ⟨start, isStart, rfl⟩
      · exact .inl value
      · exact .inr ⟨start + 3, by rwa [fixesEnum_succ, fixesEnum_succ, fixesEnum_succ], rfl⟩
  case emptied =>
    rw [List.forall_mem_cons, List.forall_mem_cons, List.forall_mem_cons]
    refine ⟨fun isEncoding => ?_, fun _ _ => empty.1, fun _ _ => empty.2.1, behind.emptied⟩
    rw [isField] at isEncoding
    cases isEncoding

end ConstantsReduced

/-- The first token keeps its signal when constants are reduced. -/
theorem head_signal_of_reduceConstants {index : Nat} {tokens reduced : List Token}
    (accepted : reduceConstants index tokens = .ok reduced) :
    reduced.head?.map Token.signal = tokens.head?.map Token.signal := by
  cases reduced with
  | nil => rw [reduceConstants_eq_nil accepted]
  | cons first later =>
      rcases reduceConstants_eq_cons accepted with ⟨token, rest, rfl, _, rfl, _⟩ |
        ⟨_, _, _, _, _, _, _, rfl, _⟩
      · exact congrArg some (signal_emptiedConstant token)
      · rfl

/-- A token in front of which no enum was reduced stands in front of none afterwards. -/
theorem wrapsConstantEnum_again {index : Nat} {token first : Token}
    {rest reduced others : List Token} (plain : wrapsConstantEnum token rest = false)
    (accepted : reduceConstants index rest = .ok reduced)
    (sameFirst : first.unspanned = (emptiedConstant token).unspanned)
    (sameOthers : others.map Token.unspanned = reduced.map Token.unspanned) :
    wrapsConstantEnum first others = false := by
  have sameHead : others.head?.map Token.signal = rest.head?.map Token.signal := by
    have signals := congrArg List.head? (map_signal_of_unspanned sameOthers)
    rw [List.head?_map, List.head?_map] at signals
    rw [signals, head_signal_of_reduceConstants accepted]
  rw [wrapsConstantEnum_eq_head, sameHead, signal_of_unspanned sameFirst,
    isConstant_of_unspanned sameFirst, signal_emptiedConstant, Token.isConstant,
    encoding_emptiedConstant, ← Token.isConstant, ← wrapsConstantEnum_eq_head, plain]

/-- Reducing takes the length from every constant that is to lose it, and leaves each with the value
that it came with. -/
theorem constantsReduced_of_reduceConstants {index : Nat} {tokens : List Token} :
    ∀ {reduced : List Token}, (∀ token ∈ tokens, token.ConstantGiven) →
      reduceConstants index tokens = .ok reduced → ConstantsReduced reduced
  | [], _, _ => .nil
  | first :: later, given, accepted => by
      rcases reduceConstants_eq_cons accepted with
        ⟨token, rest, rfl, plain, rfl, acceptedLater⟩ |
        ⟨opening, closing, kept, values, after, laterRest, laterIndex, rfl, wraps, _, closes, _,
          rfl, acceptedLater⟩
      · rw [List.forall_mem_cons] at given
        have stillPlain : wrapsConstantEnum (emptiedConstant token) later = false :=
          wrapsConstantEnum_again plain acceptedLater rfl rfl
        have stillGiven : (emptiedConstant token).ConstantGiven :=
          constantGiven_of_encoding (encoding_emptiedConstant token) given.1
        refine .cons stillPlain stillGiven (fun isEncoding constant => ?_)
          (constantsReduced_of_reduceConstants given.2 acceptedLater)
        rw [signal_emptiedConstant] at isEncoding
        rw [Token.isConstant, encoding_emptiedConstant] at constant
        rw [emptiedConstant, if_pos ⟨isEncoding, constant⟩]
        rfl
      · simp only [List.forall_mem_cons, List.forall_mem_append] at given
        obtain ⟨givenField, givenOpening, _, givenClosing, givenAfter⟩ := given
        exact .constantEnum wraps rfl closes ⟨rfl, rfl, rfl⟩
          ⟨givenField, givenOpening, givenClosing⟩
          (constantsReduced_of_reduceConstants givenAfter acceptedLater)
termination_by reduced => reduced.length

/-- A token has its like at the same place of every list that is alike but for spans. -/
theorem getElem?_of_unspanned {tokens others : List Token}
    (same : others.map Token.unspanned = tokens.map Token.unspanned) {place : Nat} {token : Token}
    (isToken : others[place]? = some token) :
    ∃ source, tokens[place]? = some source ∧ source.unspanned = token.unspanned := by
  have there : (tokens.map Token.unspanned)[place]? = some token.unspanned := by
    rw [← same, List.getElem?_map, isToken]
    rfl
  rw [List.getElem?_map] at there
  exact Option.map_eq_some_iff.mp there

theorem FixesEnum.of_unspanned {tokens others : List Token}
    (same : others.map Token.unspanned = tokens.map Token.unspanned) {place : Nat}
    (fixes : FixesEnum others place) : FixesEnum tokens place := by
  obtain ⟨field, opening, isField, isOpening, fieldSignal, constant, openingSignal⟩ := fixes
  obtain ⟨sourceField, isSourceField, alikeField⟩ := getElem?_of_unspanned same isField
  obtain ⟨sourceOpening, isSourceOpening, alikeOpening⟩ := getElem?_of_unspanned same isOpening
  exact ⟨sourceField, sourceOpening, isSourceField, isSourceOpening,
    (signal_of_unspanned alikeField).trans fieldSignal,
    (isConstant_of_unspanned alikeField).trans constant,
    (signal_of_unspanned alikeOpening).trans openingSignal⟩

/-- Measuring changes no constant. -/
theorem ConstantsReduced.of_unspanned {tokens others : List Token}
    (reduced : ConstantsReduced tokens)
    (same : others.map Token.unspanned = tokens.map Token.unspanned) :
    ConstantsReduced others where
  enums := by
    intro place fixes
    obtain ⟨opening, kept, closing, isOpening, isKept, isClosing, emptyOpening, constant, emptyKept,
      closes, emptyClosing⟩ := reduced.enums place (fixes.of_unspanned same)
    obtain ⟨otherOpening, isOtherOpening, alikeOpening⟩ :=
      getElem?_of_unspanned same.symm isOpening
    obtain ⟨otherKept, isOtherKept, alikeKept⟩ := getElem?_of_unspanned same.symm isKept
    obtain ⟨otherClosing, isOtherClosing, alikeClosing⟩ :=
      getElem?_of_unspanned same.symm isClosing
    exact ⟨otherOpening, otherKept, otherClosing, isOtherOpening, isOtherKept, isOtherClosing,
      (encodedLength_of_unspanned alikeOpening).trans emptyOpening,
      (isConstant_of_unspanned alikeKept).trans constant,
      (encodedLength_of_unspanned alikeKept).trans emptyKept,
      (signal_of_unspanned alikeClosing).trans closes,
      (encodedLength_of_unspanned alikeClosing).trans emptyClosing⟩
  given := by
    intro place token isToken constant
    obtain ⟨source, isSource, alike⟩ := getElem?_of_unspanned same isToken
    rw [← isConstant_of_unspanned alike] at constant
    rw [← encoding_of_unspanned alike]
    rcases reduced.given place source isSource constant with value | ⟨start, fixes, rfl⟩
    · exact .inl value
    · exact .inr ⟨start, fixes.of_unspanned same.symm, rfl⟩
  emptied := by
    intro token member isEncoding constant
    obtain ⟨place, isToken⟩ := List.mem_iff_getElem?.mp member
    obtain ⟨source, isSource, alike⟩ := getElem?_of_unspanned same isToken
    rw [← signal_of_unspanned alike] at isEncoding
    rw [← isConstant_of_unspanned alike] at constant
    rw [← encodedLength_of_unspanned alike]
    exact reduced.emptied source (List.mem_of_getElem? isSource) isEncoding constant

/-! ### Captured types -/

/-- A type, with the types that were found in it and behind it. -/
theorem stands_cons {token : Token} {rest : List Token} {distance : Nat}
    {inner later : List (String × List Token)} (insideInner : ∀ type ∈ inner, type.2 <:+: rest)
    (insideLater : ∀ type ∈ later, type.2 <:+: rest.drop distance) :
    ∀ type ∈ (token.name, token :: rest.take distance) :: (inner ++ later),
      type.2 <:+: token :: rest := by
  have behind : rest <:+: token :: rest := (List.suffix_cons token rest).isInfix
  rw [List.forall_mem_cons, List.forall_mem_append]
  refine ⟨?_, fun type member => (insideInner type member).trans behind, fun type member => ?_⟩
  · exact (List.prefix_cons_inj token |>.mpr (rest.take_prefix distance)).isInfix
  · exact ((insideLater type member).trans (rest.drop_suffix distance).isInfix).trans behind

/-- The tokens of a type that is captured stand together in those that are searched. -/
theorem captured_stands {index limit : Nat} {tokens : List Token}
    {captured : List (String × List Token)}
    (accepted : captureTypes index limit tokens = .ok captured) :
    ∀ type ∈ captured, type.2 <:+: tokens := by
  fun_induction captureTypes index limit tokens generalizing captured with
  | case1 =>
      cases accepted
      exact fun _ member => nomatch member
  | case2 =>
      cases accepted
      exact fun _ member => nomatch member
  | case3 index limit token rest noType ih =>
      exact fun type member => (ih accepted type member).trans (List.suffix_cons token rest).isInfix
  | case4 => cases accepted
  | case5 index limit token rest closing _ distance _ _ _ ihLater =>
      rename_i ihInner
      obtain ⟨inner, isInner, accepted⟩ := ok_of_bind accepted
      obtain ⟨later, isLater, accepted⟩ := ok_of_bind accepted
      cases accepted
      exact stands_cons (ihInner isInner) (ihLater isLater)
  | case6 index limit token rest closing _ distance =>
      rename_i ihLater
      obtain ⟨inner, isInner, accepted⟩ := ok_of_bind accepted
      cases isInner
      obtain ⟨later, isLater, accepted⟩ := ok_of_bind accepted
      cases accepted
      exact stands_cons (fun _ member => nomatch member) (ihLater isLater)

/-! ### Drafts -/

/-- A type of a registry was there before some types were settled, or is one of them. -/
theorem mem_of_settleTypes {policy : DuplicatePolicy} {types : List (String × List Token)} :
    ∀ {registry next : Registry String (List Token)},
      settleTypes policy registry types = .ok next →
        ∀ entry ∈ next.entries, entry ∈ registry.entries ∨ entry ∈ types := by
  induction types with
  | nil =>
      intro registry next settled entry member
      cases settled
      exact .inl member
  | cons first others ih =>
      intro registry next settled entry member
      rw [settleTypes_cons] at settled
      obtain ⟨between, isBetween, settled⟩ := ok_of_bind settled
      rcases ih settled entry member with isBefore | isOther
      · rcases settleType_eq_ok_iff.mp isBetween with ⟨_, rfl⟩ | ⟨_, rfl⟩
        · exact .inl isBefore
        · rcases Registry.mem_insert isBefore with rfl | isKnown
          · exact .inr List.mem_cons_self
          · exact .inl isKnown
      · exact .inr (List.mem_cons_of_mem first isOther)

/-- What is checked of a message whatever its frame is: every constant has its value. -/
theorem constantGiven_of_checkMessage {messageId : Int64} {tokens : List Token}
    (checked : checkMessage messageId tokens = .ok ()) : ∀ token ∈ tokens, token.ConstantGiven := by
  unfold checkMessage at checked
  split at checked
  · split at checked
    · cases checked
    · exact (checkConstants_eq_ok_iff 0 tokens).mp checked
  · cases checked

/-- A message that passes every check is stored with its constants reduced. -/
theorem Addition.StoredAs.constantsReduced {addition : Addition} {stored : List Token}
    (storedAs : addition.StoredAs stored) : ConstantsReduced stored := by
  obtain ⟨checked, _, reduced, isReduced, isMeasured⟩ := storedAs
  exact (constantsReduced_of_reduceConstants (constantGiven_of_checkMessage checked)
    isReduced).of_unspanned (unspanned_withSpans isMeasured)

/-- The tokens of a type stand together in a message that a call has given, as they were given but
for their spans, and every constant among them has its value. -/
structure StandsAsGiven (calls : List DraftCall) (known : List Token) : Prop where
  given : ∀ token ∈ known, token.ConstantGiven
  stands : ∃ messageId tokens, .add messageId tokens ∈ calls ∧
    known.map Token.unspanned <:+: tokens.map Token.unspanned

theorem StandsAsGiven.append {calls : List DraftCall} {known : List Token}
    (asGiven : StandsAsGiven calls known) (others : List DraftCall) :
    StandsAsGiven (calls ++ others) known := by
  obtain ⟨given, messageId, tokens, isCall, stands⟩ := asGiven
  exact ⟨given, messageId, tokens, List.mem_append_left _ isCall, stands⟩

/-- The types that are found in a message stand in it as they were given. -/
theorem Addition.StoredAs.standsAsGiven {addition : Addition} {stored : List Token}
    (storedAs : addition.StoredAs stored) {calls : List DraftCall}
    (isCall : .add addition.messageId addition.tokens ∈ calls) :
    ∀ type ∈ addition.types, StandsAsGiven calls type.2 := by
  intro type member
  obtain ⟨checked, ⟨captured, isCaptured, measured⟩, _⟩ := storedAs
  obtain ⟨found, isFound, asFound⟩ := exists_of_forall₂ measured member
  have stands := captured_stands isCaptured found isFound
  refine ⟨fun token isToken => ?given, addition.messageId, addition.tokens, isCall, ?stands⟩
  case given =>
    obtain ⟨source, isSource, alike⟩ := exists_unspanned asFound.unspanned isToken
    exact constantGiven_of_encoding (encoding_of_unspanned alike.symm)
      (constantGiven_of_checkMessage checked source (stands.subset isSource))
  case stands =>
    rw [asFound.unspanned]
    exact stands.map Token.unspanned

/-- The constants of a draft after some calls: those of its messages are reduced, and those of its
types stand as they were given. -/
structure SchemaDraft.ConstantsSettled (draft : SchemaDraft) (calls : List DraftCall) : Prop where
  messages : ∀ entry ∈ draft.messages.entries, ConstantsReduced entry.2
  types : ∀ entry ∈ draft.types.entries, StandsAsGiven calls entry.2

namespace SchemaDraft

/-- One more call keeps the constants of a draft settled. -/
theorem ConstantsSettled.after {draft : SchemaDraft} {calls : List DraftCall}
    (settled : draft.ConstantsSettled calls) (call : DraftCall) :
    (draft.after call).ConstantsSettled (calls ++ [call]) := by
  have before : draft.ConstantsSettled (calls ++ [call]) :=
    ⟨settled.messages, fun entry member => (settled.types entry member).append [call]⟩
  cases call with
  | configure options identity => exact ⟨before.messages, before.types⟩
  | add messageId tokens =>
      rw [SchemaDraft.after]
      split
      case h_2 => exact before
      case h_1 extended accepted =>
        obtain ⟨types, stored, next, storedAs, isNext, rfl⟩ := addMessage_settles accepted
        refine ⟨fun entry member => ?messages, fun entry member => ?types⟩
        case messages =>
          rcases Registry.mem_insert member with rfl | isEarlier
          · exact storedAs.constantsReduced
          · exact before.messages entry isEarlier
        case types =>
          rcases mem_of_settleTypes isNext entry member with isEarlier | isFound
          · exact before.types entry isEarlier
          · exact storedAs.standsAsGiven (List.mem_append_right calls (List.mem_singleton_self _))
              entry isFound

/-- The constants of a draft stay settled over any calls. -/
theorem ConstantsSettled.afterAll {calls : List DraftCall} {draft : SchemaDraft}
    {earlier : List DraftCall} (settled : draft.ConstantsSettled earlier) :
    (draft.afterAll calls).ConstantsSettled (earlier ++ calls) := by
  induction calls generalizing draft earlier with
  | nil => rwa [List.append_nil]
  | cons call calls ih =>
      have later := ih (settled.after call)
      rwa [List.append_assoc] at later

/-- Whatever the calls to a draft were, the messages of the schema that it becomes have their
constants reduced and are read with them as the schema fixes them, and the types stand as they were
given, each constant in them with its value. -/
theorem build_constants {start : SchemaDraft} (noMessages : start.messages.entries = [])
    (noTypes : start.types.entries = []) {calls : List DraftCall} {schema : Schema}
    (built : (start.afterAll calls).build = .ok schema) :
    (∀ entry ∈ schema.messages.entries, ConstantsReduced entry.2 ∧ ReadsConstants entry.2) ∧
      ∀ entry ∈ schema.types.entries, StandsAsGiven calls entry.2 := by
  have empty : start.ConstantsSettled [] := by
    refine ⟨fun entry member => ?_, fun entry member => ?_⟩
    · rw [noMessages] at member
      cases member
    · rw [noTypes] at member
      cases member
  have settled : (start.afterAll calls).ConstantsSettled calls := empty.afterAll
  obtain ⟨_, _, _, _, _, sameMessages⟩ := build_steps built
  rw [sameMessages, types_of_build built]
  exact ⟨fun entry member => ⟨settled.messages entry member, readsConstants entry.2⟩,
    settled.types⟩

/-- An order with a side and a currency that are fixed, and a price with a fixed exponent.  The
currency and the exponent come with a length. -/
def fixedOrder : List Token :=
  around .message "Order"
    (fixedField "side" "SELL" (around .enumeration "Side"
        [FrontEnd.typeValue .validValue .uint8 "SELL" (.uint 1)]) ++
      enclose { fixedTo "currency" "EUR" with encodedLength := 3 }
        [{ signal := .encoding, name := "char", encoding := .ofType .char }]
        { signal := .endField, name := "currency" } ++
      around .field "price" (around .composite "Price"
        [{ signal := .encoding, name := "mantissa", encodedLength := 8,
           encoding := .ofType .int64 },
          { signal := .encoding, name := "exponent", encodedLength := 1,
            encoding := { Encoding.ofType .int8 with
              presence := .constant, constValue := some (.int (-2)) } }]))

/-- The schema with that order alone. -/
theorem build_constants_order :
    let calls : List DraftCall := [.add 1 fixedOrder]
    emptyDraft.messages.entries = [] ∧ emptyDraft.types.entries = [] ∧ ∃ schema,
      (emptyDraft.afterAll calls).build = .ok schema ∧
      (∀ entry ∈ schema.messages.entries, ConstantsReduced entry.2 ∧ ReadsConstants entry.2) ∧
        ∀ entry ∈ schema.types.entries, StandsAsGiven calls entry.2 := by
  intro calls
  have succeeds : (emptyDraft.afterAll calls).build.toOption.isSome = true := by decide +kernel
  obtain ⟨schema, built⟩ := exists_ok_of_isSome succeeds
  exact ⟨rfl, rfl, schema, built, build_constants rfl rfl built⟩

/-! ### Constants that keep a length or have no value -/

/-- An order with a side that is fixed to a value without a constant. -/
def valuelessOrder : List Token :=
  around .message "Order"
    (fixedField "side" "SELL"
      (around .enumeration "Side" [{ signal := .validValue, name := "SELL" }]))

/-- An order with legs, the number of which is fixed and takes no room. -/
def countedLegs : List Token :=
  around .message "Order" (around .group "legs" (enclose
    { signal := .beginComposite, name := "Size", encodedLength := 2 }
    [{ signal := .encoding, name := "blockLength", encodedLength := 2,
       encoding := .ofType .uint16 },
      { signal := .encoding, name := "numInGroup", offset := 2,
        encoding := { Encoding.ofType .uint16 with
          presence := .constant, constValue := some (.uint 2) } }]
    { signal := .endComposite, name := "Size" }))

/-- An order with a box that is fixed and takes no room, around a content that does. -/
def fixedBox : List Token :=
  around .message "Order" (around .field "box" (enclose
    { signal := .beginComposite, name := "Box"
      encoding := { presence := .constant, constValue := some (.uint 7) } }
    [{ signal := .encoding, name := "content", encodedLength := 1, encoding := .ofType .uint8 }]
    { signal := .endComposite, name := "Box" }))

/-- Reading a message from a buffer fails, although each constant in it has its value and no
length. -/
def FailsWithoutLengths (tokens : List Token) (buffer : Buffer) : Prop :=
  (∀ token ∈ tokens, token.isConstant = true →
    token.encoding.constValue ≠ none ∧ token.encodedLength = 0) ∧
  (decode buffer 0 0 0 tokens).outcome.toOption = none

instance (tokens : List Token) (buffer : Buffer) :
    Decidable (FailsWithoutLengths tokens buffer) :=
  inferInstanceAs (Decidable (_ ∧ _))

/-- A schema keeps the length of a constant field in its messages and of a constant encoding in its
types; and it keeps the value of an enum as a constant that has none, on which reading fails.  Where
constants have values and no lengths, the number of entries of a group and the members of a
composite are still read from the bytes. -/
theorem constants_not_settled :
    (∃ schema, (emptyDraft.afterAll [.add 1 fixedOrder]).build = .ok schema ∧
      (∃ stored ∈ schema.messages.get? 1, ∃ token ∈ stored,
        token.isConstant = true ∧ token.encodedLength ≠ 0) ∧
      ∃ known ∈ schema.types.get? "Price", ∃ token ∈ known,
        token.isConstant = true ∧ token.encodedLength ≠ 0) ∧
      (∃ schema, (emptyDraft.afterAll [.add 1 valuelessOrder]).build = .ok schema ∧
        ∃ stored ∈ schema.messages.get? 1,
          (∃ token ∈ stored, token.isConstant = true ∧ token.encoding.constValue = none) ∧
            (decode #[] 0 0 0 stored).outcome.toOption = none) ∧
      ∃ schema, (emptyDraft.afterAll [.add 1 countedLegs, .add 2 fixedBox]).build = .ok schema ∧
        (∃ stored ∈ schema.messages.get? 1, FailsWithoutLengths stored #[0, 0]) ∧
        ∃ stored ∈ schema.messages.get? 2, FailsWithoutLengths stored #[] := by
  have lengths : ∃ schema ∈ (emptyDraft.afterAll [.add 1 fixedOrder]).build.toOption,
      (∃ stored ∈ schema.messages.get? 1, ∃ token ∈ stored,
        token.isConstant = true ∧ token.encodedLength ≠ 0) ∧
      ∃ known ∈ schema.types.get? "Price", ∃ token ∈ known,
        token.isConstant = true ∧ token.encodedLength ≠ 0 := by
    decide +kernel
  have noValue : ∃ schema ∈ (emptyDraft.afterAll [.add 1 valuelessOrder]).build.toOption,
      ∃ stored ∈ schema.messages.get? 1,
        (∃ token ∈ stored, token.isConstant = true ∧ token.encoding.constValue = none) ∧
          (decode #[] 0 0 0 stored).outcome.toOption = none := by
    decide +kernel
  have noLengths : ∃ schema ∈
      (emptyDraft.afterAll [.add 1 countedLegs, .add 2 fixedBox]).build.toOption,
      (∃ stored ∈ schema.messages.get? 1, FailsWithoutLengths stored #[0, 0]) ∧
        ∃ stored ∈ schema.messages.get? 2, FailsWithoutLengths stored #[] := by
    decide +kernel
  obtain ⟨schema, built, kept⟩ := lengths
  obtain ⟨other, builtOther, fails⟩ := noValue
  obtain ⟨last, builtLast, reads⟩ := noLengths
  exact ⟨⟨schema, ok_of_toOption built, kept⟩, ⟨other, ok_of_toOption builtOther, fails⟩,
    last, ok_of_toOption builtLast, reads⟩

end SchemaDraft

end WireSchema
