/-
Module: WireSchema.Proofs.StoredRoundTrip
Purpose: A schema that was put together from messages under one choice for types that are defined
  twice, and whose tokens can be told apart in the stored form, is loaded from what it was stored
  as: with the same identity, the same header and the same messages in the same order, and so that
  it is stored as the same bytes again (`Schema.load_store`).  Where no conflict is allowed none
  arises.
Main exports: Schema.Storable, Schema.Reloaded, Schema.load_store, load_unshaped
-/
import WireSchema.Proofs.ReloadedDraft
import WireSchema.Proofs.StoredReading
import WireSchema.FrontEnd.Constructs

namespace WireSchema

/-! ### The header -/

/-- Whether the tokens of a header are a single composite in which no composite of the same name
ends. -/
def HeaderShaped (tokens : List Token) : Prop :=
  ∃ opening inner closing, tokens = enclose opening inner closing ∧
    opening.signal = .beginComposite ∧ closing.signal = .endComposite ∧
    closing.name = opening.name ∧ (∃ measured, MeasuresTo inner measured) ∧
    ∀ token ∈ inner, Token.isNamed .endComposite opening.name token = false

/-- A header that ends with the first token that closes a composite of its name is split off. -/
theorem splitHeader_enclose {opening closing : Token} {inner : List Token}
    (opens : opening.signal = .beginComposite)
    (closes : Token.isNamed .endComposite opening.name closing = true)
    (notInside : ∀ token ∈ inner, Token.isNamed .endComposite opening.name token = false)
    (rest : List Token) :
    splitHeader (enclose opening inner closing ++ rest) =
      .ok (enclose opening inner closing, rest) := by
  have regroup : enclose opening inner closing ++ rest =
      opening :: (inner ++ closing :: rest) := by
    simp [enclose]
  have found := findIdx?_isNamed notInside closes rest
  have taken : (opening :: (inner ++ closing :: rest)).take (inner.length + 2) =
      enclose opening inner closing := by
    rw [← regroup, ← length_enclose opening inner closing, List.take_left]
  have dropped : (opening :: (inner ++ closing :: rest)).drop (inner.length + 2) = rest := by
    rw [← regroup, ← length_enclose opening inner closing, List.drop_left]
  rw [regroup]
  unfold splitHeader
  simp only [if_pos opens, found, taken, dropped]

/-- The header is split off as it was stored. -/
theorem splitHeader_reread {tokens : List Token} (shaped : HeaderShaped tokens)
    (rest : List Token) :
    splitHeader (tokens.map Token.reread ++ rest) = .ok (tokens.map Token.reread, rest) := by
  obtain ⟨opening, inner, closing, rfl, opens, closes, named, _, unambiguous⟩ := shaped
  rw [map_reread_enclose]
  have opensReread : opening.reread.signal = .beginComposite := opens
  refine splitHeader_enclose opensReread ?_ ?_ rest
  · change (closing.signal == .endComposite && closing.name == opening.name) = true
    rw [closes, named]
    simp
  · rw [List.forall_mem_map]
    exact unambiguous

/-- The header as it is after it was read back and measured again. -/
def HeaderStructure.remeasured (header : HeaderStructure) : HeaderStructure where
  tokens := header.tokens.map Token.remeasured
  blockLength := header.blockLength.remeasured
  templateId := header.templateId.remeasured
  schemaId := header.schemaId.remeasured
  schemaVersion := header.schemaVersion.remeasured

theorem isNamed_remeasured (signal : Signal) (name : String) (token : Token) :
    Token.isNamed signal name token.remeasured = Token.isNamed signal name token := by
  unfold Token.remeasured
  split <;> rfl

theorem HeaderStructure.findField_remeasured {tokens : List Token} {name : String} {found : Token}
    (isFound : findField tokens name = .ok found) :
    findField (tokens.map Token.remeasured) name = .ok found.remeasured := by
  have sameSearch : Token.isNamed .encoding name ∘ Token.remeasured =
      Token.isNamed .encoding name :=
    funext fun token => isNamed_remeasured _ _ token
  unfold findField at isFound ⊢
  rw [List.find?_map, sameSearch]
  cases search : tokens.find? (Token.isNamed .encoding name) with
  | none =>
      rw [search] at isFound
      cases isFound
  | some token =>
      rw [search] at isFound
      cases isFound
      rfl

/-- The header is found again in its tokens. -/
theorem HeaderStructure.ofTokens_remeasured {tokens : List Token} {header : HeaderStructure}
    (isHeader : ofTokens tokens = .ok header) :
    header.tokens = tokens ∧ ofTokens (tokens.map Token.remeasured) = .ok header.remeasured := by
  obtain ⟨blockLength, isBlockLength, isHeader⟩ := ok_of_bind isHeader
  obtain ⟨templateId, isTemplateId, isHeader⟩ := ok_of_bind isHeader
  obtain ⟨schemaId, isSchemaId, isHeader⟩ := ok_of_bind isHeader
  obtain ⟨schemaVersion, isSchemaVersion, isHeader⟩ := ok_of_bind isHeader
  cases isHeader
  refine ⟨rfl, ?_⟩
  simp only [ofTokens, findField_remeasured isBlockLength, findField_remeasured isTemplateId,
    findField_remeasured isSchemaId, findField_remeasured isSchemaVersion, bind, Except.bind]
  rfl

/-- The tokens of a header are measured again as they were stored. -/
theorem HeaderShaped.measured {tokens stored : List Token} (shaped : HeaderShaped stored)
    (isMeasured : withSpans tokens = .ok stored) :
    withSpans (stored.map Token.reread) = .ok (stored.map Token.remeasured) := by
  obtain ⟨opening, inner, closing, rfl, opens, closes, _, ⟨measured, measures⟩, _⟩ := shaped
  have opensComposite : opening.signal.opens? = some .composite := congrArg Signal.opens? opens
  have closesComposite : closing.signal.closes? = some .composite :=
    congrArg Signal.closes? closes
  have whole := MeasuresTo.enclosed opensComposite closesComposite measures
  exact withSpans_of_measuresTo (MeasuresTo.of_withSpans isMeasured whole).reread

/-! ### Storing again -/

/-- What was read back is stored as the same bytes. -/
theorem storedToken_reread (token : Token) : storedToken token.reread = storedToken token := by
  have text : ∀ value : Option Value,
      (value.map Value.canonical).map (fun value => value.schemaText token.encoding.primitiveType) =
        value.map fun value => value.schemaText token.encoding.primitiveType := by
    intro value
    cases value with
    | none => rfl
    | some value => exact congrArg some (value.schemaText_canonical _)
  have texts : tokenTexts token.reread = tokenTexts token := by
    simp only [tokenTexts, Token.reread, Token.canonical, Encoding.canonical, Token.withSpan, text]
  have block : tokenBlock token.reread = tokenBlock token := by
    have span := token.span_reread
    simp only [tokenBlock, span]
    rfl
  rw [storedToken, texts, block]
  rfl

theorem storedToken_remeasured (token : Token) :
    storedToken token.remeasured = storedToken token := by
  rw [← storedToken_reread token.remeasured, token.reread_remeasured, storedToken_reread]

theorem storedToken_canonical (token : Token) :
    storedToken token.canonical = storedToken token := by
  rw [← storedToken_reread token.canonical, token.reread_canonical, storedToken_reread]

/-! ### The whole schema -/

/-- What it takes for the parts of a stored schema to be told apart and to be legible. -/
structure Schema.Storable (shape : List Token → Prop) (schema : Schema) : Prop where
  header : HeaderShaped schema.header.tokens
  messages : ∀ entry ∈ schema.messages.entries, MessageShaped shape entry.1 entry.2
  settled : ∀ entry ∈ schema.messages.entries, MessageSettled entry.2
  identity : schema.identity.Legible
  tokens : ∀ token ∈ schema.storedTokens, token.Legible

/-- A schema and what it is after it was stored and loaded: the same, but that one word stands for
all that are not numbers, and that no leaf of the header has a span less than one. -/
structure Schema.Reloaded (schema again : Schema) : Prop where
  identity : again.identity = schema.identity
  namespaces : again.namespaces = schema.namespaces
  header : again.header = schema.header.remeasured
  messages : again.messages.entries =
    schema.messages.entries.map fun entry => (entry.1, entry.2.map Token.canonical)

/-- A loaded schema is stored as the bytes that it was loaded from. -/
theorem Schema.Reloaded.store {schema again : Schema} (reloaded : schema.Reloaded again) :
    again.store = schema.store := by
  have header : again.header.tokens = schema.header.tokens.map Token.remeasured := by
    rw [reloaded.header]
    rfl
  have messages : again.messages.entries.flatMap (·.2) =
      (schema.messages.entries.flatMap (·.2)).map Token.canonical := by
    rw [reloaded.messages, List.flatMap_map, List.map_flatMap]
  have remeasured : storedToken ∘ Token.remeasured = storedToken := funext storedToken_remeasured
  have canonical : storedToken ∘ Token.canonical = storedToken := funext storedToken_canonical
  have tokens : again.storedTokens.mapM storedToken = schema.storedTokens.mapM storedToken := by
    rw [storedTokens, storedTokens, header, messages, List.mapM_append, List.mapM_append,
      List.mapM_map, List.mapM_map, remeasured, canonical]
  rw [Schema.store, reloaded.identity, tokens]
  rfl

/-- A frame that is read, the tokens of a header and those of messages are loaded together. -/
theorem Schema.load_of_frame {identity : SchemaIdentity} {frame : List UInt8}
    {headerTokens messageTokens : List Token} {pieces : List (List UInt8)}
    {options : SchemaOptions} {last : SchemaDraft} {again : Schema}
    (readsFrame : Reads StoredReader.frame frame identity)
    (headerShaped : HeaderShaped headerTokens)
    (legible : ∀ token ∈ headerTokens ++ messageTokens, token.Legible)
    (isStored : (headerTokens ++ messageTokens).mapM storedToken = .ok pieces)
    (added : addStoredMessages
      { options, identity, headerTokens := headerTokens.map Token.reread }
      (messageTokens.map Token.reread) = .ok last)
    (built : last.build = .ok again) :
    Schema.load (frame ++ pieces.flatten) options = .ok again := by
  obtain ⟨cursor, isRead⟩ := StoredReader.contents_stored readsFrame legible isStored
  rw [List.map_append] at isRead
  unfold Schema.load
  rw [StateT.run, isRead]
  simp only [bind, Except.bind, splitHeader_reread headerShaped, added, built]

/-- Stored bytes are read back as the header and the messages that were stored. -/
theorem Schema.load_eq_ok {schema again : Schema} {bytes : List UInt8} {options : SchemaOptions}
    {last : SchemaDraft} (headerShaped : HeaderShaped schema.header.tokens)
    (identity : schema.identity.Legible) (tokens : ∀ token ∈ schema.storedTokens, token.Legible)
    (stored : schema.store = .ok bytes)
    (added : addStoredMessages
      { options, identity := schema.identity,
        headerTokens := schema.header.tokens.map Token.reread }
      (schema.messages.entries.flatMap fun entry => entry.2.map Token.reread) = .ok last)
    (built : last.build = .ok again) : Schema.load bytes options = .ok again := by
  obtain ⟨frame, isFrame, withTokens⟩ := ok_of_bind stored
  obtain ⟨pieces, isPieces, isBytes⟩ := ok_of_bind withTokens
  cases isBytes
  rw [← List.map_flatMap] at added
  exact load_of_frame (Reads.frame identity isFrame) headerShaped tokens isPieces added built

/-- A draft with the header and the messages that were read back becomes the schema that was
stored. -/
theorem SchemaDraft.Refilled.build {start last : SchemaDraft} {schema : Schema}
    {seen : List (String × List Token)} {tokens : List Token}
    (refilled : start.Refilled last schema.messages.entries seen)
    (isMeasured : withSpans tokens = .ok schema.header.tokens)
    (isHeader : HeaderStructure.ofTokens schema.header.tokens = .ok schema.header)
    (headerShaped : HeaderShaped schema.header.tokens)
    (identity : schema.identity = start.identity)
    (namespaces : schema.namespaces = start.identity.namespaces start.options.collapseNamespaces)
    (headerTokens : start.headerTokens = schema.header.tokens.map Token.reread) :
    ∃ again, last.build = .ok again ∧ schema.Reloaded again := by
  obtain ⟨_, headerAgain⟩ := HeaderStructure.ofTokens_remeasured isHeader
  refine ⟨⟨last.identity, last.identity.namespaces last.options.collapseNamespaces,
    schema.header.remeasured, last.messages, last.types⟩, ?_, ?_, ?_, rfl, refilled.messages⟩
  · simp only [SchemaDraft.build, refilled.headerTokens, headerTokens,
      headerShaped.measured isMeasured, headerAgain, bind, Except.bind]
  · exact refilled.identity.trans identity.symm
  · rw [namespaces, refilled.identity, refilled.options]

/-- A schema is loaded from what it was stored as, and stored as the same bytes again. -/
theorem Schema.load_store {policy : DuplicatePolicy} {draft : SchemaDraft} {schema : Schema}
    {bytes : List UInt8} (reachable : draft.Reachable policy) (built : draft.build = .ok schema)
    (storable : schema.Storable (Shaped false)) (stored : schema.store = .ok bytes) :
    ∃ again, Schema.load bytes draft.options = .ok again ∧ schema.Reloaded again ∧
      again.store = .ok bytes := by
  obtain ⟨additions, history⟩ := reachable.history
  obtain ⟨measured, isMeasured, isHeader, identity, namespaces, messages⟩ :=
    SchemaDraft.build_steps built
  obtain ⟨rfl, _⟩ := HeaderStructure.ofTokens_remeasured isHeader
  have shaped := storable.messages
  have settled := storable.settled
  rw [messages] at shaped settled
  obtain ⟨types, again, compatible⟩ := history.typesAgain shaped settled
  have distinct := history.distinct
  rw [← messages] at shaped again compatible
  rw [Registry.Distinct, ← messages] at distinct
  -- the new draft starts with nothing but what was said about the schema
  let start : SchemaDraft :=
    { options := draft.options, identity := schema.identity,
      headerTokens := schema.header.tokens.map Token.reread }
  have nothing : start.Refilled start [] [] :=
    ⟨rfl, rfl, rfl, rfl, fun _ _ isKnown => by cases isKnown⟩
  have shapedAgain : ∀ entry ∈ schema.messages.entries,
      MessageShaped Nested entry.1 (entry.2.map Token.reread) :=
    fun entry member => ((shaped entry member).imp Shaped.nested).map_reread
  have compatibleTypes : start.options.duplicateTypes = .reject →
      ([] ++ schema.messages.entries.flatMap types).Pairwise Compatible :=
    fun rejects => compatible (history.chosen.symm.trans rejects)
  obtain ⟨last, added, refilled⟩ := nothing.addAll shapedAgain again distinct compatibleTypes
  have sameNamespaces : schema.namespaces =
      start.identity.namespaces start.options.collapseNamespaces := by
    rw [namespaces, ← identity]
  obtain ⟨loaded, builtAgain, reloaded⟩ :=
    refilled.build isMeasured isHeader storable.header rfl sameNamespaces rfl
  have isLoaded := Schema.load_eq_ok storable.header storable.identity storable.tokens stored added
    builtAgain
  exact ⟨loaded, isLoaded, reloaded, reloaded.store.trans stored⟩

/-! ### Schemas put together from given messages -/

/-- What is stored of a schema, and what is wrong with loading it again. -/
structure StoredOutcome where
  identity : SchemaIdentity
  headerTokens : List Token
  messages : List (Int64 × List Token)
  fault : Option StoredError
deriving DecidableEq

/-- What becomes of a schema that is put together from some messages, stored and loaded. -/
def storedOutcome (draft : SchemaDraft) (messages : List (Int64 × List Token)) :
    Option StoredOutcome :=
  (draft.addMessages messages).toOption.bind fun extended =>
    extended.build.toOption.bind fun schema =>
      schema.store.toOption.map fun bytes =>
        { identity := schema.identity
          headerTokens := schema.header.tokens
          messages := schema.messages.entries
          fault := match Schema.load bytes extended.options with
            | .ok _ => none
            | .error fault => some fault }

theorem storedOutcome_eq_some {draft : SchemaDraft} {messages : List (Int64 × List Token)}
    {outcome : StoredOutcome} (isOutcome : storedOutcome draft messages = some outcome) :
    ∃ extended schema bytes, draft.addMessages messages = .ok extended ∧
      extended.build = .ok schema ∧ schema.store = .ok bytes ∧
      schema.identity = outcome.identity ∧ schema.header.tokens = outcome.headerTokens ∧
      schema.messages.entries = outcome.messages ∧
      ∀ fault, outcome.fault = some fault → Schema.load bytes extended.options = .error fault := by
  obtain ⟨extended, isExtended, isOutcome⟩ := Option.bind_eq_some_iff.mp isOutcome
  obtain ⟨schema, isSchema, isOutcome⟩ := Option.bind_eq_some_iff.mp isOutcome
  obtain ⟨bytes, isStored, isOutcome⟩ := Option.map_eq_some_iff.mp isOutcome
  subst isOutcome
  refine ⟨extended, schema, bytes, ok_of_toOption isExtended, ok_of_toOption isSchema,
    ok_of_toOption isStored, rfl, rfl, rfl, fun fault isFault => ?_⟩
  cases loaded : Schema.load bytes extended.options with
  | ok again =>
      simp only [loaded] at isFault
      cases isFault
  | error problem =>
      simp only [loaded] at isFault
      cases isFault
      rfl

/-- Whether each value of a token is what its own text is read as. -/
def Token.ReadsItself (token : Token) : Prop :=
  (∀ value ∈ token.encoding.values,
    Value.parse (value.schemaText token.encoding.primitiveType) token.encoding.primitiveType =
        .ok value ∧
      value.schemaText token.encoding.primitiveType ≠ "") ∧
    some "" ∉ token.remarks

instance (token : Token) : Decidable token.ReadsItself :=
  inferInstanceAs (Decidable (_ ∧ _))

theorem Token.ReadsItself.legible {token : Token} (readsItself : token.ReadsItself) :
    token.Legible :=
  ⟨fun value member => ⟨⟨_, (readsItself.1 value member).1⟩, (readsItself.1 value member).2⟩,
    readsItself.2⟩

/-- What is stored of the header of the drafts below. -/
def storedHeader : List Token :=
  let composite : Token :=
    { signal := .beginComposite, name := "messageHeader", encodedLength := 8, storedSpan := 6 }
  enclose composite
    [FrontEnd.encoding "blockLength" .uint16 0, FrontEnd.encoding "templateId" .uint16 2,
      FrontEnd.encoding "schemaId" .uint16 4, FrontEnd.encoding "version" .uint16 6]
    { composite with signal := .endComposite }

theorem storedHeader_shaped : HeaderShaped storedHeader := by
  have inside : Nested [FrontEnd.encoding "blockLength" .uint16 0,
      FrontEnd.encoding "templateId" .uint16 2, FrontEnd.encoding "schemaId" .uint16 4,
      FrontEnd.encoding "version" .uint16 6] :=
    .leaf ⟨rfl, rfl⟩ (.leaf ⟨rfl, rfl⟩ (.leaf ⟨rfl, rfl⟩ (.leaf ⟨rfl, rfl⟩ .nil)))
  exact ⟨_, _, _, rfl, rfl, rfl, rfl, inside.measuresTo, by decide⟩

theorem storedHeader_legible : ∀ token ∈ storedHeader, token.Legible := by
  have readable : ∀ token ∈ storedHeader, token.ReadsItself := by decide +kernel
  exact fun token member => (readable token member).legible

/-- A field that is fixed to one side of an order. -/
def fixedSide : Token :=
  { signal := .beginField, name := "side", id := 1,
    encoding :=
      { presence := .constant, constValue := some (.bytes (Text.utf8Bytes "Side.SELL")) } }

/-- An order with a field that is fixed to one side, around an enum of some values. -/
def sideMessage (values : List Token) : List Token :=
  FrontEnd.message "Order" 1 0
    (FrontEnd.wrapField fixedSide (FrontEnd.wrapType .beginEnum .endEnum "Side" .uint8 0 values))

/-- What is stored of such an order if a certain value is kept. -/
def storedSide (value : Token) : List Token :=
  let message : Token :=
    { signal := .beginMessage, name := "Order", id := 1, storedSpan := 7 }
  let enum : Token :=
    { signal := .beginEnum, name := "Side", encoding := .ofType .uint8, storedSpan := 3 }
  enclose message
    (enclose (fixedSide.withSpan 5) (enclose enum [value] { enum with signal := .endEnum })
      { fixedSide with signal := .endField, storedSpan := 5 })
    { message with signal := .endMessage }

/-- The stored value of a side. -/
def keptSide : Token :=
  (FrontEnd.typeValue .validValue .uint8 "SELL" (.uint 1)).emptied.fixed

theorem storedSide_shaped : MessageShaped (Shaped false) 1 (storedSide keptSide) :=
  ⟨_, _, _, rfl, rfl, rfl, rfl, rfl,
    @Shaped.constantField (fixedSide.withSpan 5) _ keptSide _ _ [] [] rfl rfl rfl rfl rfl rfl rfl
      rfl .nil .nil⟩

/-- A draft of no messages. -/
def startedDraft (policy : DuplicatePolicy) : SchemaDraft :=
  { options := { duplicateTypes := policy }, identity := { packageName := "orders" },
    headerTokens := FrontEnd.headerTokens }

/-- A schema with the header of these drafts is storable if its messages are. -/
theorem Schema.storable_of_readable {schema : Schema} {shape : List Token → Prop}
    {entries : List (Int64 × List Token)}
    (identity : schema.identity = { packageName := "orders" })
    (header : schema.header.tokens = storedHeader) (isEntries : schema.messages.entries = entries)
    (shaped : ∀ entry ∈ entries, MessageShaped shape entry.1 entry.2)
    (settled : ∀ entry ∈ entries, MessageSettled entry.2)
    (readable : ∀ token ∈ entries.flatMap (·.2), token.ReadsItself) : schema.Storable shape := by
  refine ⟨?_, ?_, ?_, ?_, ?_⟩
  · rw [header]
    exact storedHeader_shaped
  · rwa [isEntries]
  · rwa [isEntries]
  · rw [identity]
    exact ⟨nofun, nofun⟩
  · rw [Schema.storedTokens, header, isEntries, List.forall_mem_append]
    exact ⟨storedHeader_legible, fun token member => (readable token member).legible⟩

/-- A schema is storable if the messages that are stored of it are. -/
theorem storable_of_storedOutcome {policy : DuplicatePolicy} {shape : List Token → Prop}
    {messages entries : List (Int64 × List Token)} {fault : Option StoredError}
    (isOutcome : storedOutcome (startedDraft policy) messages =
      some ⟨{ packageName := "orders" }, storedHeader, entries, fault⟩)
    (shaped : ∀ entry ∈ entries, MessageShaped shape entry.1 entry.2)
    (settled : ∀ entry ∈ entries, MessageSettled entry.2)
    (readable : ∀ token ∈ entries.flatMap (·.2), token.ReadsItself) :
    ∃ (draft : SchemaDraft) (schema : Schema) (bytes : List UInt8), draft.Reachable policy ∧
      draft.build = .ok schema ∧ schema.Storable shape ∧ schema.store = .ok bytes ∧
      ∀ problem, fault = some problem → Schema.load bytes draft.options = .error problem := by
  obtain ⟨draft, schema, bytes, added, built, stored, identity, header, isEntries, fails⟩ :=
    storedOutcome_eq_some isOutcome
  have started : (startedDraft policy).Reachable policy := .start _ _ _ rfl
  exact ⟨draft, schema, bytes, started.addMessages added, built,
    Schema.storable_of_readable identity header isEntries shaped settled readable, stored, fails⟩

/-- A schema with an order whose side is fixed, stored and loaded. -/
theorem load_store_side :
    ∃ (draft : SchemaDraft) (schema : Schema) (bytes : List UInt8), draft.Reachable .reject ∧
      draft.build = .ok schema ∧ schema.Storable (Shaped false) ∧ schema.store = .ok bytes ∧
      ∃ again, Schema.load bytes draft.options = .ok again ∧ schema.Reloaded again ∧
        again.store = .ok bytes := by
  let buy := FrontEnd.typeValue .validValue .uint8 "BUY" (.uint 0)
  let sell := FrontEnd.typeValue .validValue .uint8 "SELL" (.uint 1)
  have isOutcome : storedOutcome (startedDraft .reject) [(1, sideMessage [buy, sell])] =
      some ⟨{ packageName := "orders" }, storedHeader, [(1, storedSide keptSide)], none⟩ := by
    decide +kernel
  have shaped : ∀ entry ∈ [((1 : Int64), storedSide keptSide)],
      MessageShaped (Shaped false) entry.1 entry.2 := by
    rw [List.forall_mem_singleton]
    exact storedSide_shaped
  have settled : ∀ entry ∈ [((1 : Int64), storedSide keptSide)], MessageSettled entry.2 := by
    rw [List.forall_mem_singleton]
    exact ⟨by decide +kernel, by decide +kernel⟩
  obtain ⟨draft, schema, bytes, reachable, built, storable, stored, _⟩ :=
    storable_of_storedOutcome isOutcome shaped settled (by decide +kernel)
  exact ⟨draft, schema, bytes, reachable, built, storable, stored,
    Schema.load_store reachable built storable stored⟩

/-! ### Constants within types, and enums that hold more than values -/

/-- Whether some schema of nested messages is stored and then not loaded, because of a fault. -/
def StoredInVain (policy : DuplicatePolicy) (fault : StoredError) : Prop :=
  ∃ (draft : SchemaDraft) (schema : Schema) (bytes : List UInt8), draft.Reachable policy ∧
    draft.build = .ok schema ∧ schema.Storable Nested ∧ schema.store = .ok bytes ∧
    Schema.load bytes draft.options = .error fault

/-- Something within an enum that is no value, and yet has the name of one. -/
def namedSide : Token :=
  { signal := .encoding, name := "SELL" }

theorem namedSide_nested : MessageShaped Nested 1 (storedSide namedSide.fixed) := by
  have inside : Nested [namedSide.fixed] := .leaf ⟨rfl, rfl⟩ .nil
  exact ⟨_, _, _, rfl, rfl, rfl, rfl, rfl,
    @Nests.enclosed _ .field _ _ _ rfl rfl ⟨nofun, rfl⟩
      (@Nests.enclosed _ .enumeration _ _ _ rfl rfl ⟨nofun, rfl⟩ inside)⟩

/-- An enum that holds something besides values, which the field refers to. -/
theorem sideMessage_storedInVain :
    StoredInVain .lastWins (.malformed (.missingConstantValue "SELL" 3)) := by
  have isOutcome : storedOutcome (startedDraft .lastWins) [(1, sideMessage [namedSide])] =
      some ⟨{ packageName := "orders" }, storedHeader, [(1, storedSide namedSide.fixed)],
        some (.malformed (.missingConstantValue "SELL" 3))⟩ := by
    decide +kernel
  have shaped : ∀ entry ∈ [((1 : Int64), storedSide namedSide.fixed)],
      MessageShaped Nested entry.1 entry.2 := by
    rw [List.forall_mem_singleton]
    exact namedSide_nested
  have settled : ∀ entry ∈ [((1 : Int64), storedSide namedSide.fixed)],
      MessageSettled entry.2 := by
    rw [List.forall_mem_singleton]
    exact ⟨by decide +kernel, by decide +kernel⟩
  obtain ⟨draft, schema, bytes, reachable, built, storable, stored, fails⟩ :=
    storable_of_storedOutcome isOutcome shaped settled (by decide +kernel)
  exact ⟨draft, schema, bytes, reachable, built, storable, stored, fails _ rfl⟩

/-- A field that is fixed to a level. -/
def fixedLevel (level : Binary64) : Token :=
  { signal := .beginField, name := "level", id := 1,
    encoding :=
      { presence := .constant, primitiveType := some .double, constValue := some (.float level) } }

/-- A level by its name. -/
def levelValue (name : String) (value : UInt64) : Token :=
  FrontEnd.typeValue .validValue .uint8 name (.uint value)

/-- A message with a composite, and in it a field that is fixed to one of two levels. -/
def readingMessage (name : String) (id : Int32) (level : Binary64) : List Token :=
  FrontEnd.message name id 0
    (FrontEnd.composite "Reading" 0 0
      (FrontEnd.wrapField (fixedLevel level)
        (FrontEnd.wrapType .beginEnum .endEnum "Level" .uint8 0
          [levelValue "0" 1, levelValue "-0" 2])))

/-- What is stored of such a message if a certain value is kept. -/
def storedReading (name : String) (id : Int32) (level : Binary64) (value : Token) : List Token :=
  let message : Token := { signal := .beginMessage, name, id, storedSpan := 9 }
  let composite : Token := { signal := .beginComposite, name := "Reading", storedSpan := 7 }
  let enum : Token :=
    { signal := .beginEnum, name := "Level", encoding := .ofType .uint8, storedSpan := 3 }
  enclose message
    (enclose composite
      (enclose ((fixedLevel level).withSpan 5)
        (enclose enum [value.emptied.fixed] { enum with signal := .endEnum })
        { fixedLevel level with signal := .endField, storedSpan := 5 })
      { composite with signal := .endComposite })
    { message with signal := .endMessage }

theorem storedReading_nested (name : String) (id : Int32) (level : Binary64) (value : Token)
    (isValue : value.signal = .validValue) :
    MessageShaped Nested id.toInt64 (storedReading name id level value) := by
  have inside : Nested [value.emptied.fixed] :=
    .leaf ⟨congrArg Signal.opens? isValue, congrArg Signal.closes? isValue⟩ .nil
  exact ⟨_, _, _, rfl, rfl, rfl, rfl, rfl,
    @Nests.enclosed _ .composite _ _ _ rfl rfl ⟨nofun, rfl⟩
      (@Nests.enclosed _ .field _ _ _ rfl rfl ⟨nofun, rfl⟩
        (@Nests.enclosed _ .enumeration _ _ _ rfl rfl ⟨nofun, rfl⟩ inside))⟩

/-- Two constants that are equal as numbers, and refer to two values of an enum. -/
theorem readingMessage_storedInVain :
    StoredInVain .reject (.malformed (.conflictingType "Reading")) := by
  let up := storedReading "Up" 1 ⟨0⟩ (levelValue "0" 1)
  let down := storedReading "Down" 2 ⟨0x8000000000000000⟩ (levelValue "-0" 2)
  have isOutcome : storedOutcome (startedDraft .reject)
      [(1, readingMessage "Up" 1 ⟨0⟩), (2, readingMessage "Down" 2 ⟨0x8000000000000000⟩)] =
      some ⟨{ packageName := "orders" }, storedHeader, [(1, up), (2, down)],
        some (.malformed (.conflictingType "Reading"))⟩ := by
    decide +kernel
  have shaped : ∀ entry ∈ [((1 : Int64), up), (2, down)],
      MessageShaped Nested entry.1 entry.2 := by
    rw [List.forall_mem_cons, List.forall_mem_singleton]
    exact ⟨storedReading_nested _ _ _ _ rfl, storedReading_nested _ _ _ _ rfl⟩
  have settled : ∀ entry ∈ [((1 : Int64), up), (2, down)], MessageSettled entry.2 := by
    rw [List.forall_mem_cons, List.forall_mem_singleton]
    exact ⟨⟨by decide +kernel, by decide +kernel⟩, ⟨by decide +kernel, by decide +kernel⟩⟩
  obtain ⟨draft, schema, bytes, reachable, built, storable, stored, fails⟩ :=
    storable_of_storedOutcome isOutcome shaped settled (by decide +kernel)
  exact ⟨draft, schema, bytes, reachable, built, storable, stored, fails _ rfl⟩

/-- Nesting alone does not make a schema come back from its stored form. -/
theorem load_unshaped :
    StoredInVain .lastWins (.malformed (.missingConstantValue "SELL" 3)) ∧
      StoredInVain .reject (.malformed (.conflictingType "Reading")) :=
  ⟨sideMessage_storedInVain, readingMessage_storedInVain⟩

end WireSchema
