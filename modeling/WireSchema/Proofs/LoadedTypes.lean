/-
Module: WireSchema.Proofs.LoadedTypes
Purpose: The stored form of a schema holds messages and no types.  The types are captured anew from
  the messages that are loaded, in which constants have no length and an enum that a constant field
  wraps holds one value.  Where no conflict is allowed, what was said of the types survives that
  (`Schema.load_types`): `TypesLoaded` tells what becomes of each of them.
Main exports: TypesLoaded, LoadedOutcome, Schema.load_types, load_types_unshaped
-/
import WireSchema.Proofs.AdditionOrder
import WireSchema.Proofs.LoadedMessage

namespace WireSchema

/-! ### The uses of types -/

theorem unspanned_emptiedConstant (token : Token) :
    emptiedConstant token.unspanned = (emptiedConstant token).unspanned := by
  unfold emptiedConstant
  change (if token.signal = .encoding ∧ token.isConstant = true then token.unspanned.emptied
    else token.unspanned) = _
  split <;> rfl

/-- What a type becomes where it is stored whole and loaded: its constants lose their lengths, and
texts that are there and empty are left out. -/
theorem keepsLayout_loaded : KeepsLayout fun token => (emptiedConstant token).pruned where
  signal := signal_emptiedConstant
  constant token := congrArg (·.presence == .constant) (encoding_emptiedConstant token)
  agrees same := same.emptiedConstant.pruned

theorem TypeUse.tokens_reduced_of_unfixed {use : TypeUse} (unfixed : use.fixedBy = none) :
    use.reduced.tokens = use.tokens.map emptiedConstant := by
  rw [reduced, unfixed]
  simp [tokens, enclose]

theorem TypeUse.tokens_reduced_of_fixed {use : TypeUse} {field kept : Token}
    (fixed : use.fixedBy = some field) (isKept : use.referred? field = some kept) :
    use.reduced.tokens = [use.opening.emptied, kept.emptied.fixed, use.closing.emptied] := by
  rw [reduced, fixed]
  simp only [tokens, isKept]
  rfl

/-- A type that is fixed is loaded as a reduced enum. -/
theorem TypeUse.LoadedAs.isReducedEnum_of_fixed {use : TypeUse} {type : String × List Token}
    (loadedAs : use.LoadedAs type) (formed : use.Formed) (resolved : use.Resolved)
    (fixed : use.fixedBy.isSome) : isReducedEnum type.2 = true := by
  obtain ⟨field, isField⟩ := Option.isSome_iff_exists.mp fixed
  obtain ⟨kept, isKept⟩ := Option.isSome_iff_exists.mp (resolved field isField)
  have isValue := formed.areValues fixed kept (List.mem_of_find?_eq_some isKept)
  have same : type.2.map Token.unspanned =
      (use.reduced.tokens.map Token.pruned).map Token.unspanned := by
    rw [List.map_map]
    exact loadedAs.tokens
  rw [isReducedEnum_of_unspanned same, TypeUse.tokens_reduced_of_fixed isField isKept]
  have opens : use.opening.emptied.pruned.signal = .beginEnum := formed.opensEnum fixed
  have holds : kept.emptied.fixed.pruned.signal = .validValue := isValue
  have constant : kept.emptied.fixed.pruned.isConstant = true := rfl
  simp [isReducedEnum, opens, holds, constant]

/-- A type that is stored whole is loaded as it was, but for the lengths of constants and for empty
texts. -/
theorem TypeUse.LoadedAs.tokens_of_unfixed {use : TypeUse} {type again : String × List Token}
    (loadedAs : use.LoadedAs again) (measured : MeasuredAs use.captured type)
    (unfixed : use.fixedBy = none) :
    again.2.map Token.unspanned =
      type.2.map fun token => (emptiedConstant token).pruned.unspanned := by
  have spanless : ∀ tokens : List Token,
      (tokens.map Token.unspanned).map (fun token => (emptiedConstant token).pruned) =
        tokens.map fun token => (emptiedConstant token).pruned.unspanned := by
    intro tokens
    rw [List.map_map]
    exact List.map_congr_left fun token _ =>
      congrArg Token.pruned (unspanned_emptiedConstant token)
  rw [loadedAs.tokens, TypeUse.tokens_reduced_of_unfixed unfixed, List.map_map, ← spanless,
    measured.unspanned, spanless]
  rfl

/-- A type that a message uses is loaded as itself, or as a reduced enum. -/
theorem TypeUse.LoadedAs.recaptured {use : TypeUse} {type again : String × List Token}
    (loadedAs : use.LoadedAs again) (measured : MeasuredAs use.captured type)
    (formed : use.Formed) (resolved : use.Resolved) :
    Recaptured (fun token => (emptiedConstant token).pruned) type again where
  name := loadedAs.name.trans measured.name.symm
  layout := by
    cases fixed : use.fixedBy with
    | some field =>
        exact .inl (loadedAs.isReducedEnum_of_fixed formed resolved (by rw [fixed]; rfl))
    | none => exact .inr (loadedAs.tokens_of_unfixed measured fixed)

/-- What is known of a type that a message of a schema uses. -/
structure TypeUse.Sound (use : TypeUse) : Prop where
  formed : use.Formed
  resolved : use.Resolved
  varies : ∀ token ∈ use.tokens, token.signal = .validValue → token.isConstant = false
  agrees : ∀ token ∈ use.reduced.tokens, token.encoding.agrees token.encoding = true

/-- The types that a message of a schema uses are sound. -/
theorem Addition.StoredAs.sound {addition : Addition} {stored : List Token} {uses : List TypeUse}
    (storedAs : addition.StoredAs stored)
    (message : SchemaMessage addition.messageId addition.tokens uses)
    (survive : ∀ token ∈ stored, token.Survives) : ∀ use ∈ uses, use.Sound := by
  obtain ⟨reduced, isReduced, _⟩ := storedAs.reduced
  intro use member
  exact ⟨message.shaped.formed use member, (message.shaped.reduces isReduced).2 use member,
    fun token isToken isValue =>
      (message.values token (message.shaped.tokens_subset use member isToken) isValue).2,
    storedAs.agrees message.shaped survive use member⟩

/-- No type is a reduced enum before it is stored. -/
theorem TypeUse.Sound.full {use : TypeUse} {type : String × List Token} (sound : use.Sound)
    (measured : MeasuredAs use.captured type) : isReducedEnum type.2 = false := by
  rw [isReducedEnum_of_unspanned measured.unspanned]
  have noneConstant : use.tokens.any
      (fun token => token.signal == .validValue && token.isConstant) = false := by
    rw [List.any_eq_false]
    intro token member constant
    rw [Bool.and_eq_true, beq_iff_eq] at constant
    rw [sound.varies token member constant.1] at constant
    cases constant.2
  change (_ && use.tokens.any _) = false
  rw [noneConstant, Bool.and_false]

theorem sameLayout_self {tokens : List Token}
    (agrees : ∀ token ∈ tokens, token.encoding.agrees token.encoding = true) :
    sameLayout tokens tokens = true := by
  rw [sameLayout_iff]
  refine ⟨rfl, fun index one other isOne isOther => ?_⟩
  cases isOne.symm.trans isOther
  exact ⟨rfl, rfl, rfl, agrees one (List.mem_of_getElem? isOne), .inr rfl⟩

/-- A type that is stored whole has the same layout as itself. -/
theorem TypeUse.Sound.sameLayout {use : TypeUse} {type : String × List Token} (sound : use.Sound)
    (unfixed : use.fixedBy = none) (measured : MeasuredAs use.captured type) :
    WireSchema.sameLayout type.2 type.2 = true := by
  refine sameLayout_self fun token member => ?_
  obtain ⟨source, isSource, same⟩ := exists_unspanned measured.unspanned member
  have isReduced : emptiedConstant source ∈ use.reduced.tokens := by
    rw [TypeUse.tokens_reduced_of_unfixed unfixed]
    exact List.mem_map_of_mem isSource
  have agrees := sound.agrees _ isReduced
  rwa [encoding_emptiedConstant, encoding_of_unspanned same] at agrees

/-! ### Loaded definitions -/

/-- What becomes of the definitions of types when a schema is stored and loaded.  A type that is
used outside constant fields keeps its layout, but for the lengths of constants.  Of an enum that
is used by constant fields alone, the value is left that the first of them refers to. -/
structure TypesLoaded (view : Token → Token) (uses : List TypeUse)
    (types loaded : Registry String (List Token)) : Prop where
  names : loaded.entries.map (·.1) = types.entries.map (·.1)
  whole : ∀ use ∈ uses, use.fixedBy = none → ∃ known again, types.get? use.name = some known ∧
    loaded.get? use.name = some again ∧
    sameLayout (known.map fun token => view (emptiedConstant token)) again = true
  fixed : ∀ before use after field, uses = before ++ use :: after → use.fixedBy = some field →
    (∀ other ∈ before, other.name ≠ use.name) →
    (∀ other ∈ after, other.name = use.name → other.fixedBy.isSome) →
    ∃ kept again, use.referred? field = some kept ∧ loaded.get? use.name = some again ∧
      again.map Token.unspanned =
        [use.opening.emptied, kept.emptied.fixed, use.closing.emptied].map
          fun token => (view token).unspanned

section

variable {uses : List TypeUse} {types again : List (String × List Token)}

/-- Types that do not conflict do not conflict when they are loaded. -/
theorem compatible_loaded (sound : ∀ use ∈ uses, use.Sound)
    (measured : List.Forall₂ (fun use type => MeasuredAs use.captured type) uses types)
    (loaded : List.Forall₂ TypeUse.LoadedAs uses again) (compatible : types.Pairwise Compatible) :
    again.Pairwise Compatible := by
  have recaptured : List.Forall₂
      (Recaptured fun token => (emptiedConstant token).pruned) types again :=
    forall₂_trans ((List.forall₂_and_left _ _).mpr ⟨sound, measured⟩).flip loaded
      fun ⟨soundUse, isMeasured⟩ loadedAs =>
        loadedAs.recaptured isMeasured soundUse.formed soundUse.resolved
  exact pairwise_of_forall₂ recaptured compatible (Compatible.recaptured keepsLayout_loaded)

/-- Types that can be settled can be settled when they are loaded. -/
theorem settles_loaded (sound : ∀ use ∈ uses, use.Sound)
    (measured : List.Forall₂ (fun use type => MeasuredAs use.captured type) uses types)
    (loaded : List.Forall₂ TypeUse.LoadedAs uses again)
    (settles : ∃ before, settleTypes .reject {} types = .ok before) :
    ∃ after, settleTypes .reject {} again = .ok after := by
  rw [settles_alone_iff] at settles ⊢
  exact compatible_loaded sound measured loaded settles

/-- The names of types are those of the uses. -/
theorem names_of_forall₂ {related : TypeUse → String × List Token → Prop}
    (all : List.Forall₂ related uses types)
    (named : ∀ {use type}, related use type → type.1 = use.name) :
    types.map (·.1) = uses.map TypeUse.name := by
  induction all with
  | nil => rfl
  | cons first _ ih => rw [List.map_cons, List.map_cons, named first, ih]

/-- The definitions of types that were settled before they were stored and after they were
loaded. -/
theorem typesLoaded (sound : ∀ use ∈ uses, use.Sound)
    (measured : List.Forall₂ (fun use type => MeasuredAs use.captured type) uses types)
    (loaded : List.Forall₂ TypeUse.LoadedAs uses again)
    {before after : Registry String (List Token)}
    (settled : settleTypes .reject {} types = .ok before)
    (settledAgain : settleTypes .reject {} again = .ok after) :
    TypesLoaded Token.pruned uses before after := by
  constructor
  case names =>
    rw [keys_settleTypes settled, keys_settleTypes settledAgain,
      names_of_forall₂ measured fun measured => measured.name,
      names_of_forall₂ loaded fun loadedAs => loadedAs.name]
  case whole =>
    intro use member unfixed
    obtain ⟨type, isType, isMeasured⟩ := exists_of_forall₂ measured.flip member
    obtain ⟨typeAgain, isTypeAgain, loadedAs⟩ := exists_of_forall₂ loaded.flip member
    have soundUse := sound use member
    have full := soundUse.full isMeasured
    have same := loadedAs.tokens_of_unfixed isMeasured unfixed
    have fullAgain : isReducedEnum typeAgain.2 = false := by
      rw [isReducedEnum_of_change keepsLayout_loaded same, full]
    obtain ⟨known, isKnown, alike⟩ := definition_of_settled settled type isType full
    obtain ⟨knownAgain, isKnownAgain, alikeAgain⟩ :=
      definition_of_settled settledAgain typeAgain isTypeAgain fullAgain
    have sameName : type.1 = use.name := isMeasured.name
    rw [sameName] at isKnown
    rw [loadedAs.name] at isKnownAgain
    refine ⟨known, knownAgain, isKnown, isKnownAgain, ?_⟩
    have layout : sameLayout known type.2 = true := by
      rcases alike with rfl | layout
      · exact soundUse.sameLayout unfixed isMeasured
      · exact layout
    have changed : sameLayout (known.map fun token => (emptiedConstant token).pruned)
        typeAgain.2 = true :=
      sameLayout_of_change keepsLayout_loaded layout List.map_map same
    rcases alikeAgain with rfl | layoutAgain
    · exact changed
    · exact sameLayout_trans changed (sameLayout_symm layoutAgain)
  case fixed =>
    rintro front use back field rfl isField first followed
    obtain ⟨typesFront, type, typesBack, rfl, loadedFront, loadedAs, loadedBack⟩ :=
      split_of_forall₂ loaded
    rw [List.forall_mem_append, List.forall_mem_cons] at sound
    obtain ⟨_, soundUse, soundBack⟩ := sound
    have firstType : ∀ other ∈ typesFront, other.1 ≠ type.1 := by
      intro other member
      obtain ⟨source, isSource, isLoaded⟩ := exists_of_forall₂ loadedFront member
      rw [isLoaded.name, loadedAs.name]
      exact first source isSource
    have reducedBack : ∀ other ∈ typesBack, other.1 = type.1 → isReducedEnum other.2 = true := by
      intro other member sameName
      obtain ⟨source, isSource, isLoaded⟩ := exists_of_forall₂ loadedBack member
      rw [isLoaded.name, loadedAs.name] at sameName
      have soundSource := soundBack source isSource
      exact isLoaded.isReducedEnum_of_fixed soundSource.formed soundSource.resolved
        (followed source isSource sameName)
    have defined := definition_of_first settledAgain firstType reducedBack
    obtain ⟨kept, isKept⟩ := Option.isSome_iff_exists.mp (soundUse.resolved field isField)
    rw [loadedAs.name] at defined
    refine ⟨kept, type.2, isKept, defined, ?_⟩
    rw [loadedAs.tokens, TypeUse.tokens_reduced_of_fixed isField isKept]

end

/-! ### Schemas -/

section

variable {schema : Schema} {bytes : List UInt8} {messages : List (Int64 × List Token)}
  {uses : Int64 × List Token → List TypeUse}

/-- The messages of a schema are those that were added, as they were stored. -/
theorem SchemaDraft.BuiltFrom.entries {policy : DuplicatePolicy} {draft : SchemaDraft}
    (built : draft.BuiltFrom policy messages) (distinct : (messages.map (·.1)).Nodup)
    (isBuilt : draft.build = .ok schema) {types : Int64 × List Token → List (String × List Token)}
    {stored : Int64 × List Token → List Token}
    (storedAs : ∀ message ∈ messages,
      (Addition.mk message.1 message.2 (types message)).StoredAs (stored message)) :
    schema.messages.entries = messages.map fun message => (message.1, stored message) := by
  obtain ⟨_, _, _, _, _, sameMessages⟩ := SchemaDraft.build_steps isBuilt
  obtain ⟨_, _, isStored⟩ := built.holds storedAs
  rw [sameMessages, isStored, Registry.extend_of_distinct]
  · rfl
  · rw [List.map_map]
    exact distinct

/-- The draft that the messages of a schema are added to when it is loaded. -/
def Schema.reloading (schema : Schema) (options : SchemaOptions) : SchemaDraft :=
  { options, identity := schema.pruned.identity,
    headerTokens := schema.pruned.header.tokens.map Token.reread }

/-- A schema is loaded if the messages that are read of it can be added to that draft. -/
theorem Schema.load_of_added {draft last : SchemaDraft} {options : SchemaOptions}
    (isBuilt : draft.build = .ok schema) (header : HeaderShaped schema.header.tokens)
    (survive : ∀ token ∈ schema.storedTokens, token.Survives) (stored : schema.store = .ok bytes)
    (nested : ∀ message ∈ messages, MessageShaped Nested message.1 message.2)
    (added : (schema.reloading options).addMessages messages = .ok last)
    (sameHeader : last.headerTokens = (schema.reloading options).headerTokens)
    (isLoaded : messages.flatMap (·.2) =
      (schema.messages.entries.flatMap (·.2)).map Token.loaded) :
    ∃ again, Schema.load bytes options = .ok again ∧ again.types = last.types := by
  obtain ⟨measured, _, isHeader, _, _, _⟩ := SchemaDraft.build_steps isBuilt
  obtain ⟨rfl, _⟩ := HeaderStructure.ofTokens_remeasured isHeader
  obtain ⟨measuredAgain, headerAgain, isMeasuredAgain, isHeaderAgain⟩ := header.loads isHeader
  have builtAgain : ∃ again, last.build = .ok again ∧ again.types = last.types := by
    have isMeasuredLast : withSpans last.headerTokens = .ok measuredAgain := by
      rw [sameHeader]
      exact isMeasuredAgain
    rw [SchemaDraft.build, bind_of_ok isMeasuredLast, bind_of_ok isHeaderAgain]
    exact ⟨_, rfl, rfl⟩
  obtain ⟨again, builtAgain, sameTypes⟩ := builtAgain
  have read : messages.flatMap (·.2) =
      schema.pruned.messages.entries.flatMap fun entry => entry.2.map Token.reread := by
    rw [isLoaded, Schema.pruned, List.map_flatMap, List.flatMap_map]
    simp only [List.map_map]
    rfl
  have addedStored := addStoredMessages_eq nested added
  rw [read] at addedStored
  refine ⟨again, Schema.load_eq_ok header.pruned schema.identity.pruned_legible ?_
    (schema.store_pruned.trans stored) addedStored builtAgain, sameTypes⟩
  rw [Schema.storedTokens_pruned, List.forall_mem_map]
  exact fun token member => Token.legible_of_survives (survive token member)

/-- A schema that was put together from messages of some shape where no conflict is allowed, with
values that survive, and what it was stored as. -/
structure Schema.StoredFrom (shape : Int64 × List Token → Prop)
    (messages : List (Int64 × List Token)) (schema : Schema) (bytes : List UInt8) : Prop where
  built : ∃ draft : SchemaDraft, draft.BuiltFrom .reject messages ∧ draft.build = .ok schema
  distinct : (messages.map (·.1)).Nodup
  formed : ∀ message ∈ messages, shape message
  header : HeaderShaped schema.header.tokens
  survive : ∀ token ∈ schema.storedTokens, token.Survives
  stored : schema.store = .ok bytes

/-- Where no conflict is allowed, the types of a schema survive its stored form: the names come back
in the same order, a type that is used outside constant fields has the layout that it had, and an
enum that is used by constant fields alone holds the value that the first of them refers to. -/
theorem Schema.load_types
    (storedFrom : schema.StoredFrom
      (fun message => SchemaMessage message.1 message.2 (uses message)) messages bytes)
    {options : SchemaOptions} (rejects : options.duplicateTypes = .reject) :
    ∃ again, Schema.load bytes options = .ok again ∧
      TypesLoaded Token.pruned (messages.flatMap uses) schema.types again.types := by
  obtain ⟨⟨draft, built, isBuilt⟩, distinct, formed, header, survive, stored⟩ := storedFrom
  have each := built.storedAs
  choose! types kept storedAs using each
  obtain ⟨_, settled, _⟩ := built.holds storedAs
  have entries := built.entries distinct isBuilt storedAs
  have surviveKept : ∀ message ∈ messages, ∀ token ∈ kept message, token.Survives := by
    intro message member token isToken
    refine survive token (List.mem_append_right _ ?_)
    rw [entries, List.flatMap_map]
    exact List.mem_flatMap.mpr ⟨message, member, isToken⟩
  have loads := fun message (member : message ∈ messages) =>
    (storedAs message member).loaded (formed message member) (surviveKept message member)
  choose! typesAgain keptAgain storedAgain shapedAgain loadedAs using loads
  -- the types of all messages, before and after
  have measuredAll : List.Forall₂ (fun use type => MeasuredAs use.captured type)
      (messages.flatMap uses) (messages.flatMap types) :=
    forall₂_flatMap fun message member =>
      ((storedAs message member).types_eq (formed message member).shaped).1
  have loadedAll : List.Forall₂ TypeUse.LoadedAs
      (messages.flatMap uses) (messages.flatMap typesAgain) := forall₂_flatMap loadedAs
  have sound : ∀ use ∈ messages.flatMap uses, use.Sound := by
    intro use member
    obtain ⟨message, isMessage, isUse⟩ := List.mem_flatMap.mp member
    exact (storedAs message isMessage).sound (formed message isMessage)
      (surviveKept message isMessage) use isUse
  obtain ⟨next, settledAgain⟩ := settles_loaded sound measuredAll loadedAll ⟨_, settled⟩
  -- the messages are added again to a draft that starts with nothing
  let loaded : Int64 × List Token → Int64 × List Token := fun message =>
    (message.1, (kept message).map Token.loaded)
  have storedLoaded : ∀ message ∈ messages,
      (Addition.mk (loaded message).1 (loaded message).2 (typesAgain message)).StoredAs
        (keptAgain message) := storedAgain
  have shapedLoaded : ∀ message ∈ messages.map loaded,
      MessageShaped Nested message.1 message.2 := List.forall_mem_map.mpr shapedAgain
  have isLoaded : (messages.map loaded).flatMap (·.2) =
      (schema.messages.entries.flatMap (·.2)).map Token.loaded := by
    rw [entries, List.flatMap_map, List.flatMap_map, List.map_flatMap]
  have settledLoaded : settleTypes (schema.reloading options).options.duplicateTypes {}
      (messages.flatMap typesAgain) = .ok next := by
    rw [← settledAgain]
    exact congrArg (fun policy => settleTypes policy {} (messages.flatMap typesAgain)) rejects
  have added := SchemaDraft.addMessages_map_eq storedLoaded (schema.reloading options)
  have startsEmpty : (schema.reloading options).types = {} := rfl
  rw [startsEmpty, settledLoaded] at added
  obtain ⟨again, isAgain, sameTypes⟩ :=
    Schema.load_of_added isBuilt header survive stored shapedLoaded added rfl isLoaded
  refine ⟨again, isAgain, ?_⟩
  rw [SchemaDraft.types_of_build isBuilt, sameTypes]
  exact typesLoaded sound measuredAll loadedAll settled settledAgain

end

/-! ### Schemas put together from given messages -/

/-- A schema, the bytes that it is stored as, and what is loaded from them. -/
structure LoadedOutcome where
  schema : Schema
  bytes : List UInt8
  loaded : Except StoredError Schema

/-- What becomes of a schema that is put together from some messages, stored and loaded. -/
def loadedOutcome (messages : List (Int64 × List Token)) : Option LoadedOutcome :=
  ((startedDraft .reject).addMessages messages).toOption.bind fun draft =>
    draft.build.toOption.bind fun schema =>
      schema.store.toOption.map fun bytes =>
        { schema, bytes, loaded := Schema.load bytes { duplicateTypes := .reject } }

/-- Whether the header of a schema is the one of the drafts above and all its values survive. -/
def LoadedOutcome.Survives (outcome : LoadedOutcome) : Prop :=
  outcome.schema.header.tokens = storedHeader ∧
    ∀ token ∈ outcome.schema.storedTokens, token.Survives

instance (outcome : LoadedOutcome) : Decidable outcome.Survives :=
  inferInstanceAs (Decidable (_ ∧ _))

theorem storedFrom_of_loadedOutcome {shape : Int64 × List Token → Prop}
    {messages : List (Int64 × List Token)} {outcome : LoadedOutcome}
    (isOutcome : outcome ∈ loadedOutcome messages) (survives : outcome.Survives)
    (distinct : (messages.map (·.1)).Nodup) (formed : ∀ message ∈ messages, shape message) :
    outcome.schema.StoredFrom shape messages outcome.bytes ∧
      Schema.load outcome.bytes { duplicateTypes := .reject } = outcome.loaded := by
  obtain ⟨draft, isDraft, isOutcome⟩ := Option.bind_eq_some_iff.mp isOutcome
  obtain ⟨schema, isSchema, isOutcome⟩ := Option.bind_eq_some_iff.mp isOutcome
  obtain ⟨bytes, isStored, isOutcome⟩ := Option.map_eq_some_iff.mp isOutcome
  subst isOutcome
  have started : (startedDraft .reject).BuiltFrom .reject [] := .start _ _ _ rfl
  refine ⟨⟨⟨draft, started.addMessages (ok_of_toOption isDraft), ok_of_toOption isSchema⟩,
    distinct, formed, ?_, survives.2, ok_of_toOption isStored⟩, rfl⟩
  rw [survives.1]
  exact storedHeader_shaped

/-- The two sides of an order. -/
def sides : List Token :=
  [FrontEnd.typeValue .validValue .uint8 "BUY" (.uint 0),
    FrontEnd.typeValue .validValue .uint8 "SELL" (.uint 1)]

/-- A text with eight characters in it, in a character set without a name. -/
def labelText : Token :=
  { FrontEnd.array "characters" .char 0 8 with
    encoding := { primitiveType := some .char, characterEncoding := some "" } }

/-- A message with a label. -/
def labelMessage : List Token :=
  FrontEnd.message "Parcel" 2 8
    (FrontEnd.field "label" 1 (FrontEnd.composite "Label" 0 8 [labelText]))

/-- A use of the sides of an order that is fixed to one of them. -/
def fixedSides : TypeUse :=
  { fixedBy := some fixedSide
    opening :=
      { signal := .beginEnum, name := "Side", encodedLength := 1, encoding := .ofType .uint8 }
    inner := sides
    closing :=
      { signal := .endEnum, name := "Side", encodedLength := 1, encoding := .ofType .uint8 } }

/-- A use of a label. -/
def label : TypeUse :=
  { opening := { signal := .beginComposite, name := "Label", encodedLength := 8 }
    inner := [labelText]
    closing := { signal := .endComposite, name := "Label", encodedLength := 8 } }

/-- An order and a parcel. -/
def orderAndParcel : List (Int64 × List Token) :=
  [(1, sideMessage sides), (2, labelMessage)]

/-- The types that they use. -/
def orderAndParcelUses (message : Int64 × List Token) :
    List TypeUse :=
  if message.1 = 1 then [fixedSides] else [label]

theorem sideMessage_formed : SchemaMessage 1 (sideMessage sides) [fixedSides] where
  shaped := ⟨_, _, _, rfl, rfl, rfl, rfl, rfl,
    @SchemaTokens.constantField fixedSide fixedSides.opening fixedSides.closing _ sides [] [] [] []
      rfl rfl rfl (by decide) rfl rfl rfl rfl .nil .nil⟩
  values := by decide +kernel

theorem labelMessage_formed : SchemaMessage 2 labelMessage [label] where
  shaped := by
    have inside : SchemaTokens true [labelText] [] := .leaf rfl rfl .nil
    have composite : SchemaTokens false label.tokens [label] :=
      @SchemaTokens.alone _ .composite _ _ _ _ rfl rfl (by decide) rfl rfl inside
    exact ⟨_, _, _, rfl, rfl, rfl, rfl, rfl,
      @SchemaTokens.alone _ .field _ _ _ _ rfl rfl (by decide) rfl rfl composite⟩
  values := by decide +kernel

theorem orderAndParcel_formed : ∀ message ∈ orderAndParcel,
    SchemaMessage message.1 message.2 (orderAndParcelUses message) := by
  rw [orderAndParcel, List.forall_mem_cons, List.forall_mem_singleton]
  exact ⟨sideMessage_formed, labelMessage_formed⟩

/-- The order and the parcel are loaded, and the label without the name of its character set. -/
theorem orderAndParcel_outcome : ∃ outcome ∈ loadedOutcome orderAndParcel, outcome.Survives ∧
    ∃ again ∈ outcome.loaded.toOption, ∃ known ∈ outcome.schema.types.get? "Label",
      ∃ knownAgain ∈ again.types.get? "Label",
        sameLayout (known.map emptiedConstant) knownAgain = false := by
  decide +kernel

/-- An order with a fixed side and a parcel with a label, loaded without conflicts. -/
theorem load_types_parcel :
    ∃ (schema : Schema) (bytes : List UInt8) (options : SchemaOptions),
      schema.StoredFrom
        (fun message => SchemaMessage message.1 message.2 (orderAndParcelUses message))
        orderAndParcel bytes ∧
      options.duplicateTypes = .reject ∧
      ∃ again, Schema.load bytes options = .ok again ∧
        TypesLoaded Token.pruned (orderAndParcel.flatMap orderAndParcelUses) schema.types
          again.types := by
  obtain ⟨outcome, isOutcome, survives, _⟩ := orderAndParcel_outcome
  have storedFrom :=
    (storedFrom_of_loadedOutcome isOutcome survives (by decide) orderAndParcel_formed).1
  exact ⟨outcome.schema, outcome.bytes, { duplicateTypes := .reject }, storedFrom, rfl,
    Schema.load_types storedFrom rfl⟩

/-! ### Empty texts, constants within types, and enums that hold more than values -/

/-- Whether some schema of nested messages is stored where no conflict is allowed and then not
loaded, because of a fault. -/
def LoadedInVain (fault : StoredError) : Prop :=
  ∃ (messages : List (Int64 × List Token)) (schema : Schema) (bytes : List UInt8),
    schema.StoredFrom (fun message => MessageShaped Nested message.1 message.2 ∧
      ValuesGiven message.2) messages bytes ∧
    Schema.load bytes { duplicateTypes := .reject } = .error fault

theorem loadedInVain_of_loadedOutcome (messages : List (Int64 × List Token)) {fault : StoredError}
    (fails : ∃ outcome ∈ loadedOutcome messages, outcome.Survives ∧
      (outcome.loaded.map fun _ => ()) = .error fault)
    (distinct : (messages.map (·.1)).Nodup)
    (nested : ∀ message ∈ messages, MessageShaped Nested message.1 message.2)
    (given : ∀ message ∈ messages, ValuesGiven message.2) : LoadedInVain fault := by
  obtain ⟨outcome, isOutcome, survives, isFault⟩ := fails
  have formed : ∀ message ∈ messages,
      MessageShaped Nested message.1 message.2 ∧ ValuesGiven message.2 :=
    fun message member => ⟨nested message member, given message member⟩
  obtain ⟨storedFrom, loads⟩ := storedFrom_of_loadedOutcome isOutcome survives distinct formed
  refine ⟨messages, outcome.schema, outcome.bytes, storedFrom, loads.trans ?_⟩
  cases loaded : outcome.loaded with
  | ok again =>
      rw [loaded] at isFault
      cases isFault
  | error problem =>
      rw [loaded] at isFault
      cases isFault
      rfl

/-- An enum that holds something besides values, which the field refers to. -/
theorem sideMessage_loadedInVain :
    LoadedInVain (.malformed (.missingConstantValue "SELL" 3)) := by
  refine loadedInVain_of_loadedOutcome [(1, sideMessage [namedSide])] (by decide +kernel)
    (by decide) ?_ (by decide +kernel)
  have inside : Nested [namedSide] := .leaf ⟨rfl, rfl⟩ .nil
  rw [List.forall_mem_singleton]
  exact ⟨_, _, _, rfl, rfl, rfl, rfl, rfl,
    @Nests.enclosed _ .field _ _ _ rfl rfl ⟨nofun, rfl⟩
      (@Nests.enclosed _ .enumeration _ _ _ rfl rfl ⟨nofun, rfl⟩ inside)⟩

theorem readingMessage_nested (name : String) (id : Int32) (level : Binary64) :
    MessageShaped Nested id.toInt64 (readingMessage name id level) := by
  have inside : Nested [levelValue "0" 1, levelValue "-0" 2] :=
    .leaf ⟨rfl, rfl⟩ (.leaf ⟨rfl, rfl⟩ .nil)
  exact ⟨_, _, _, rfl, rfl, rfl, rfl, rfl,
    @Nests.enclosed _ .composite _ _ _ rfl rfl ⟨nofun, rfl⟩
      (@Nests.enclosed _ .field _ _ _ rfl rfl ⟨nofun, rfl⟩
        (@Nests.enclosed _ .enumeration _ _ _ rfl rfl ⟨nofun, rfl⟩ inside))⟩

/-- Two constants within a type that are equal as numbers, and refer to two values of an enum. -/
theorem readingMessage_loadedInVain :
    LoadedInVain (.malformed (.conflictingType "Reading")) := by
  refine loadedInVain_of_loadedOutcome
    [(1, readingMessage "Up" 1 ⟨0⟩), (2, readingMessage "Down" 2 ⟨0x8000000000000000⟩)]
    (by decide +kernel) (by decide) ?_ (by decide +kernel)
  rw [List.forall_mem_cons, List.forall_mem_singleton]
  exact ⟨readingMessage_nested _ _ _, readingMessage_nested _ _ _⟩

/-- Nesting alone does not make a schema come back, and a text that is there and empty does not come
back in the layout of its type. -/
theorem load_types_unshaped :
    LoadedInVain (.malformed (.missingConstantValue "SELL" 3)) ∧
      LoadedInVain (.malformed (.conflictingType "Reading")) ∧
      ∃ (schema : Schema) (bytes : List UInt8) (again : Schema),
        schema.StoredFrom
          (fun message => SchemaMessage message.1 message.2 (orderAndParcelUses message))
          orderAndParcel bytes ∧
        Schema.load bytes { duplicateTypes := .reject } = .ok again ∧
        ¬ TypesLoaded id (orderAndParcel.flatMap orderAndParcelUses) schema.types
          again.types := by
  refine ⟨sideMessage_loadedInVain, readingMessage_loadedInVain, ?_⟩
  obtain ⟨outcome, isOutcome, survives, again, isLoaded, known, isKnown, knownAgain, isKnownAgain,
    differs⟩ := orderAndParcel_outcome
  obtain ⟨storedFrom, loads⟩ :=
    storedFrom_of_loadedOutcome isOutcome survives (by decide) orderAndParcel_formed
  refine ⟨outcome.schema, outcome.bytes, again, storedFrom,
    loads.trans (ok_of_toOption isLoaded), fun typesLoaded => ?_⟩
  have isUsed : label ∈ orderAndParcel.flatMap orderAndParcelUses := .tail _ (.head _)
  obtain ⟨_, _, sameKnown, sameAgain, same⟩ := typesLoaded.whole _ isUsed rfl
  cases sameKnown.symm.trans isKnown
  cases sameAgain.symm.trans isKnownAgain
  cases same.symm.trans differs

end WireSchema
