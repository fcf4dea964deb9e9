/-
Module: WireSchema.Proofs.CutSchema
Purpose: The stored form holds no counts of tokens and no checksums, and still a cut never makes
  another schema of it (`Schema.load_of_cut`).  A cut within the frame or within a token leaves
  something that cannot be read; a cut within the header leaves a header without its end, and one
  within a message a message without its end.  What is left are cuts right behind the header or a
  message, and those give the schema with the messages in front of the cut.
Main exports: Schema.upTo, Schema.Separable, Schema.load_of_cut, cut_unseparated
-/
import WireSchema.Proofs.ReadFronts
import WireSchema.Proofs.ReloadedNested
import WireSchema.Proofs.StoredRoundTrip

namespace WireSchema

/-! ### Tokens that end early -/

/-- A header without its last tokens is no header. -/
theorem splitHeader_of_cut {tokens : List Token} (shaped : HeaderShaped tokens) {count : Nat}
    (early : count < tokens.length) :
    splitHeader ((tokens.take count).map Token.reread) = .error .missingHeader := by
  obtain ⟨opening, inner, closing, rfl, opens, _, _, _, unambiguous⟩ := shaped
  rw [length_enclose] at early
  cases count with
  | zero => rfl
  | succ count =>
      have cut : (enclose opening inner closing).take (count + 1) =
          opening :: inner.take count := by
        rw [enclose, List.take_succ_cons, List.take_append_of_le_length (by omega)]
      have notFound : ((inner.take count).map Token.reread).findIdx?
          (Token.isNamed .endComposite opening.name) = none := by
        rw [List.findIdx?_eq_none_iff, List.forall_mem_map]
        exact fun token member => unambiguous token (List.mem_of_mem_take member)
      rw [cut, List.map_cons, splitHeader]
      simp only [Token.signal_reread, Token.name_reread, opens, notFound, if_true]

/-- A header with some tokens behind it is split off. -/
theorem splitHeader_take {tokens behind : List Token} (shaped : HeaderShaped tokens) {count : Nat}
    (whole : tokens.length ≤ count) :
    splitHeader (((tokens ++ behind).take count).map Token.reread) =
      .ok (tokens.map Token.reread,
        (behind.take (count - tokens.length)).map Token.reread) := by
  rw [List.take_append, List.take_of_length_le whole, List.map_append, splitHeader_reread shaped]

theorem Delimited.reread {opening closing : Token} {body : List Token}
    (delimited : Delimited opening body closing) :
    Delimited opening.reread (body.map Token.reread) closing.reread :=
  ⟨delimited.opens, delimited.closes, delimited.named, List.forall_mem_map.mpr delimited.notInside⟩

/-- A message without its last tokens is not added. -/
theorem addStoredMessages_unclosed {opening closing : Token} {body : List Token}
    (delimited : Delimited opening body closing) (draft : SchemaDraft) (count : Nat) :
    addStoredMessages draft (opening :: body.take count) =
      .error (.malformed (.unclosedBegin .beginMessage opening.name 0)) := by
  have front : (opening :: body.take count).dropWhile (·.signal ≠ .beginMessage) =
      opening :: body.take count := by
    rw [List.dropWhile_cons_of_neg (by simp [delimited.opens])]
  have notFound : (body.take count).findIdx? (Token.isNamed .endMessage opening.name) = none := by
    rw [List.findIdx?_eq_none_iff]
    exact fun token member => delimited.notInside token (List.mem_of_mem_take member)
  rw [addStoredMessages]
  split
  · rename_i none
    rw [front] at none
    cases none
  · rename_i first behind isFront
    rw [front] at isFront
    cases isFront
    rw [notFound]
    simp [delimited.opens]

/-- Messages that were read back are added only if the last one of them is whole. -/
theorem addStoredMessages_of_cut {messages : List (List Token)}
    (delimited : ∀ message ∈ messages, ∃ opening body closing,
      message = enclose opening body closing ∧ Delimited opening body closing) :
    ∀ {draft last : SchemaDraft} {count : Nat},
      addStoredMessages draft ((messages.flatten.take count).map Token.reread) = .ok last →
      ∃ number, messages.flatten.take count = (messages.take number).flatten := by
  induction messages with
  | nil =>
      intro draft last count _
      exact ⟨0, by simp⟩
  | cons first others ih =>
      intro draft last count added
      rw [List.forall_mem_cons] at delimited
      obtain ⟨⟨opening, body, closing, rfl, isDelimited⟩, delimitedOthers⟩ := delimited
      by_cases early : count < (enclose opening body closing).length
      · cases count with
        | zero => exact ⟨0, by simp⟩
        | succ count =>
            rw [length_enclose] at early
            have cut : (enclose opening body closing :: others).flatten.take (count + 1) =
                opening :: body.take count := by
              rw [List.flatten_cons, enclose_append, List.take_succ_cons,
                List.take_append_of_le_length (by omega)]
            rw [cut, List.map_cons, List.map_take,
              addStoredMessages_unclosed isDelimited.reread] at added
            cases added
      · have cut : (enclose opening body closing :: others).flatten.take count =
            enclose opening body closing ++
              others.flatten.take (count - (enclose opening body closing).length) := by
          rw [List.flatten_cons, List.take_append, List.take_of_length_le (by omega)]
        rw [cut, List.map_append, map_reread_enclose,
          addStoredMessages_delimited isDelimited.reread] at added
        split at added
        · cases added
        · obtain ⟨number, isCut⟩ := ih delimitedOthers added
          exact ⟨number + 1, by rw [cut, isCut, List.take_succ_cons, List.flatten_cons]⟩

/-! ### The first messages of a schema -/

/-- The schema with nothing but its first messages. -/
def Schema.upTo (schema : Schema) (count : Nat) : Schema :=
  { schema with messages := ⟨schema.messages.entries.take count⟩ }

/-- What the first tokens of a schema are stored as is the frame with their bytes. -/
theorem Schema.store_of_firstTokens {schema : Schema} {frame : List UInt8}
    {pieces : List (List UInt8)} (isFrame : storedFrame schema.identity = .ok frame)
    (isPieces : schema.storedTokens.mapM storedToken = .ok pieces) {number count : Nat}
    (firstTokens : (schema.upTo number).storedTokens = schema.storedTokens.take count) :
    (schema.upTo number).store = .ok (frame ++ (pieces.take count).flatten) := by
  have isFrameUpTo : storedFrame (schema.upTo number).identity = .ok frame := isFrame
  rw [store, bind_of_ok isFrameUpTo, firstTokens, mapM_take isPieces count]
  rfl

/-- What the first messages of a schema are stored as is where its own stored form begins. -/
theorem Schema.store_upTo {schema : Schema} {bytes : List UInt8} (stored : schema.store = .ok bytes)
    (count : Nat) : ∃ cut, (schema.upTo count).store = .ok cut ∧ cut <+: bytes := by
  obtain ⟨frame, isFrame, withTokens⟩ := ok_of_bind stored
  obtain ⟨pieces, isPieces, isBytes⟩ := ok_of_bind withTokens
  cases isBytes
  have firstTokens : (schema.upTo count).storedTokens <+: schema.storedTokens := by
    obtain ⟨later, isLater⟩ := List.take_prefix count schema.messages.entries
    refine ⟨later.flatMap (·.2), ?_⟩
    rw [storedTokens, storedTokens, List.append_assoc, ← isLater, List.flatMap_append]
    rfl
  rw [List.prefix_iff_eq_take] at firstTokens
  refine ⟨frame ++ (pieces.take (schema.upTo count).storedTokens.length).flatten, ?_, ?_⟩
  · exact store_of_firstTokens isFrame isPieces firstTokens
  · rw [List.prefix_append_right_inj]
    obtain ⟨later, isLater⟩ :=
      List.take_prefix (schema.upTo count).storedTokens.length pieces
    exact ⟨later.flatten, by rw [← List.flatten_append, isLater]⟩

theorem Schema.mem_upTo {schema : Schema} {count : Nat} {entry : Int64 × List Token}
    (member : entry ∈ (schema.upTo count).messages.entries) : entry ∈ schema.messages.entries :=
  List.mem_of_mem_take member

theorem Schema.Storable.upTo {shape : List Token → Prop} {schema : Schema}
    (storable : schema.Storable shape) (count : Nat) : (schema.upTo count).Storable shape where
  header := storable.header
  messages := fun entry member => storable.messages entry (Schema.mem_upTo member)
  settled := fun entry member => storable.settled entry (Schema.mem_upTo member)
  identity := storable.identity
  tokens := by
    intro token member
    apply storable.tokens
    rw [Schema.storedTokens, List.mem_append, List.mem_flatMap] at member ⊢
    exact member.imp_right (.imp fun entry => And.imp_left Schema.mem_upTo)

/-! ### Cuts -/

/-- What is asked of a schema for the parts of its stored form to be told apart: that its messages
are unambiguous, and that no constant in them lacks its value. -/
structure Schema.Separable (schema : Schema) : Prop extends schema.Storable Unambiguous where
  given : ∀ entry ∈ schema.messages.entries, ∀ token ∈ entry.2, token.ConstantGiven

theorem Schema.Separable.upTo {schema : Schema} (separable : schema.Separable) (count : Nat) :
    (schema.upTo count).Separable where
  toStorable := separable.toStorable.upTo count
  given := fun entry member => separable.given entry (Schema.mem_upTo member)

/-- What is loaded from a cut was read up to the end of the header or of a message. -/
theorem Schema.Separable.store_of_cut {schema again : Schema} {bytes cut : List UInt8}
    {options : SchemaOptions} (separable : schema.Separable) (stored : schema.store = .ok bytes)
    (isPrefix : cut <+: bytes) (loaded : Schema.load cut options = .ok again) :
    ∃ count, (schema.upTo count).store = .ok cut := by
  obtain ⟨frame, isFrame, withTokens⟩ := ok_of_bind stored
  obtain ⟨pieces, isPieces, isBytes⟩ := ok_of_bind withTokens
  cases isBytes
  obtain ⟨missing, whole⟩ := isPrefix
  obtain ⟨⟨found, cursor⟩, isRead, loaded⟩ := ok_of_bind loaded
  obtain ⟨count, isCut, isFound⟩ := StoredReader.contents_of_cut separable.identity
    separable.tokens isFrame isPieces whole isRead
  subst isFound
  obtain ⟨⟨headerTokens, rest⟩, isSplit, loaded⟩ := ok_of_bind loaded
  obtain ⟨last, isLast, _⟩ := ok_of_bind loaded
  rw [Schema.storedTokens] at isSplit
  have wholeHeader : schema.header.tokens.length ≤ count := by
    by_contra early
    rw [not_le] at early
    rw [List.take_append_of_le_length (Nat.le_of_lt early),
      splitHeader_of_cut separable.header early] at isSplit
    cases isSplit
  rw [splitHeader_take separable.header wholeHeader] at isSplit
  cases isSplit
  have delimited : ∀ message ∈ schema.messages.entries.map (·.2),
      ∃ opening body closing, message = enclose opening body closing ∧
        Delimited opening body closing := by
    rw [List.forall_mem_map]
    intro entry member
    obtain ⟨opening, body, closing, isEnclosed, _, isDelimited⟩ :=
      ((separable.messages entry member).imp Unambiguous.nested).delimited
    exact ⟨opening, body, closing, isEnclosed, isDelimited⟩
  rw [List.flatMap_def] at isLast
  obtain ⟨number, isWhole⟩ := addStoredMessages_of_cut delimited isLast
  -- the tokens in front of the cut are those of the header and of the first messages
  have firstTokens : (schema.upTo number).storedTokens = schema.storedTokens.take count := by
    rw [Schema.storedTokens, Schema.storedTokens, List.take_append,
      List.take_of_length_le wholeHeader, List.flatMap_def, List.flatMap_def, isWhole]
    change _ ++ ((schema.messages.entries.take number).map (·.2)).flatten = _
    rw [List.map_take]
    rfl
  exact ⟨number, isCut ▸ Schema.store_of_firstTokens isFrame isPieces firstTokens⟩

/-- The schema with its first messages is loaded from what that was stored as. -/
theorem Schema.Separable.load_upTo {draft : SchemaDraft} {schema : Schema} {bytes : List UInt8}
    (separable : schema.Separable) (reachable : draft.Reachable .lastWins)
    (built : draft.build = .ok schema) {count : Nat}
    (stored : (schema.upTo count).store = .ok bytes) :
    ∃ again, Schema.load bytes draft.options = .ok again ∧ (schema.upTo count).Reloaded again := by
  obtain ⟨additions, history⟩ := reachable.history
  obtain ⟨measured, isMeasured, isHeader, identity, namespaces, messages⟩ :=
    SchemaDraft.build_steps built
  obtain ⟨rfl, _⟩ := HeaderStructure.ofTokens_remeasured isHeader
  have distinct := history.distinct
  have cut := separable.upTo count
  have storedAgain : ∀ entry ∈ (schema.upTo count).messages.entries,
      ∃ types, AddedAgain entry.1 entry.2 types := by
    intro entry member
    have isEntry := Schema.mem_upTo member
    rw [messages] at isEntry
    obtain ⟨addition, _, _, storedAs⟩ := history.stored entry.1 entry.2
      ((Registry.get?_eq_some_iff distinct).mpr isEntry)
    exact storedAs.nestedAgain (cut.messages entry member) (cut.settled entry member).leafSpans
      (cut.given entry member)
  choose! types again using storedAgain
  rw [Registry.Distinct, ← messages] at distinct
  have distinctUpTo : ((schema.upTo count).messages.entries.map (·.1)).Nodup :=
    distinct.sublist ((List.take_sublist count _).map _)
  -- the new draft starts with nothing but what was said about the schema
  let start : SchemaDraft :=
    { options := draft.options, identity := schema.identity,
      headerTokens := schema.header.tokens.map Token.reread }
  have nothing : start.Refilled start [] [] :=
    ⟨rfl, rfl, rfl, rfl, fun _ _ isKnown => by cases isKnown⟩
  have shapedAgain : ∀ entry ∈ (schema.upTo count).messages.entries,
      MessageShaped Nested entry.1 (entry.2.map Token.reread) :=
    fun entry member => ((cut.messages entry member).imp Unambiguous.nested).map_reread
  have noneRejected : start.options.duplicateTypes = .reject →
      ([] ++ (schema.upTo count).messages.entries.flatMap types).Pairwise Compatible := by
    intro rejects
    cases history.chosen.symm.trans rejects
  obtain ⟨last, added, refilled⟩ := nothing.addAll shapedAgain again distinctUpTo noneRejected
  have sameNamespaces : (schema.upTo count).namespaces =
      start.identity.namespaces start.options.collapseNamespaces := by
    change schema.namespaces = _
    rw [namespaces, ← identity]
  obtain ⟨loaded, builtAgain, reloaded⟩ :=
    refilled.build isMeasured isHeader cut.header rfl sameNamespaces rfl
  exact ⟨loaded, Schema.load_eq_ok cut.header cut.identity cut.tokens stored added builtAgain,
    reloaded⟩

/-- A stored schema that is cut short either is cut right behind the header or a message, and is
loaded as the schema with the messages in front of the cut, or is not loaded. -/
theorem Schema.load_of_cut {draft : SchemaDraft} {schema : Schema} {bytes cut : List UInt8}
    (reachable : draft.Reachable .lastWins) (built : draft.build = .ok schema)
    (separable : schema.Separable) (stored : schema.store = .ok bytes) (isPrefix : cut <+: bytes)
    (proper : cut ≠ bytes) :
    (∃ count < schema.messages.entries.length, (schema.upTo count).store = .ok cut ∧
        ∃ again, Schema.load cut draft.options = .ok again ∧
          (schema.upTo count).Reloaded again) ∨
      (∀ count, (schema.upTo count).store ≠ .ok cut) ∧
        ∃ problem, Schema.load cut draft.options = .error problem := by
  cases loaded : Schema.load cut draft.options with
  | ok again =>
      obtain ⟨count, isCut⟩ := separable.store_of_cut stored isPrefix loaded
      have early : count < schema.messages.entries.length := by
        by_contra late
        have whole : schema.upTo count = schema := by
          rw [Schema.upTo, List.take_of_length_le (not_lt.mp late)]
        rw [whole, stored] at isCut
        exact proper (Except.ok.inj isCut).symm
      obtain ⟨other, isOther, reloaded⟩ := separable.load_upTo reachable built isCut
      rw [loaded] at isOther
      cases isOther
      exact .inl ⟨count, early, isCut, again, rfl, reloaded⟩
  | error problem =>
      refine .inr ⟨fun count isCut => ?_, problem, rfl⟩
      obtain ⟨again, isLoaded, _⟩ := separable.load_upTo reachable built isCut
      rw [loaded] at isLoaded
      cases isLoaded

/-! ### Schemas put together from given messages, and cut -/

/-- What is wrong with loading what is left of a stored schema that is cut right behind its first
messages, unless nothing is cut off. -/
def cutOutcome (draft : SchemaDraft) (messages : List (Int64 × List Token)) (count : Nat) :
    Option (Option StoredError) :=
  (draft.addMessages messages).toOption.bind fun extended =>
    extended.build.toOption.bind fun schema =>
      schema.store.toOption.bind fun bytes =>
        (schema.upTo count).store.toOption.bind fun cut =>
          if cut = bytes then none
          else some (match Schema.load cut extended.options with
            | .ok _ => none
            | .error fault => some fault)

theorem cutOutcome_eq_some {draft extended : SchemaDraft} {messages : List (Int64 × List Token)}
    {count : Nat} {schema : Schema} {bytes cut : List UInt8} {fault : Option StoredError}
    (added : draft.addMessages messages = .ok extended) (built : extended.build = .ok schema)
    (stored : schema.store = .ok bytes) (isCut : (schema.upTo count).store = .ok cut)
    (isOutcome : cutOutcome draft messages count = some fault) :
    cut ≠ bytes ∧
      ∀ problem, fault = some problem → Schema.load cut extended.options = .error problem := by
  simp only [cutOutcome, added, built, stored, isCut, Except.toOption, Option.bind_some]
    at isOutcome
  split at isOutcome
  · cases isOutcome
  rename_i proper
  refine ⟨proper, fun problem isFault => ?_⟩
  cases loaded : Schema.load cut extended.options with
  | ok again =>
      simp [loaded, isFault] at isOutcome
  | error reason =>
      simpa [loaded, isFault] using isOutcome

theorem storedSide_unambiguous : MessageShaped Unambiguous 1 (storedSide keptSide) := by
  have value : Unambiguous [keptSide] := .leaf ⟨rfl, rfl⟩ .nil
  have enum := @Nests.enclosed EndsApart .enumeration
    { signal := .beginEnum, name := "Side", encoding := .ofType .uint8, storedSpan := 3 }
    { signal := .endEnum, name := "Side", encoding := .ofType .uint8, storedSpan := 3 } _ rfl rfl
    ⟨⟨nofun, rfl⟩, fun _ => by decide⟩ value
  exact ⟨_, _, _, rfl, rfl, rfl, rfl, rfl,
    @Nests.enclosed _ .field _ _ _ rfl rfl ⟨⟨nofun, rfl⟩, nofun⟩ enum⟩

/-- A message without fields. -/
def pingMessage : List Token :=
  FrontEnd.message "Ping" 2 0 []

/-- What is stored of a message without fields. -/
def storedPing : List Token :=
  enclose { signal := .beginMessage, name := "Ping", id := 2, storedSpan := 2 } []
    { signal := .endMessage, name := "Ping", id := 2, storedSpan := 2 }

theorem storedPing_unambiguous : MessageShaped Unambiguous 2 storedPing :=
  ⟨_, _, _, rfl, rfl, rfl, rfl, rfl, .nil⟩

/-- A schema of an order and a ping, cut behind the order and in front of everything. -/
theorem Schema.load_of_cut_side :
    ∃ (draft : SchemaDraft) (schema : Schema) (bytes cut : List UInt8),
      draft.Reachable .lastWins ∧ draft.build = .ok schema ∧ schema.Separable ∧
        schema.store = .ok bytes ∧ cut <+: bytes ∧ cut ≠ bytes ∧ [] <+: bytes ∧ [] ≠ bytes ∧
        (∃ count < schema.messages.entries.length, (schema.upTo count).store = .ok cut ∧
          ∃ again, Schema.load cut draft.options = .ok again ∧
            (schema.upTo count).Reloaded again) ∧
        (∀ count, (schema.upTo count).store ≠ .ok []) ∧
          ∃ problem, Schema.load [] draft.options = .error problem := by
  let buy := FrontEnd.typeValue .validValue .uint8 "BUY" (.uint 0)
  let sell := FrontEnd.typeValue .validValue .uint8 "SELL" (.uint 1)
  let entries : List (Int64 × List Token) := [(1, storedSide keptSide), (2, storedPing)]
  have isOutcome : storedOutcome (startedDraft .lastWins)
      [(1, sideMessage [buy, sell]), (2, pingMessage)] =
      some ⟨{ packageName := "orders" }, storedHeader, entries, none⟩ := by
    decide +kernel
  obtain ⟨draft, schema, bytes, added, built, stored, identity, header, isEntries, _⟩ :=
    storedOutcome_eq_some isOutcome
  have started : (startedDraft .lastWins).Reachable .lastWins := .start _ _ _ rfl
  have reachable := started.addMessages added
  have shaped : ∀ entry ∈ entries, MessageShaped Unambiguous entry.1 entry.2 := by
    rw [List.forall_mem_cons, List.forall_mem_singleton]
    exact ⟨storedSide_unambiguous, storedPing_unambiguous⟩
  have settled : ∀ entry ∈ entries, MessageSettled entry.2 := by
    rw [List.forall_mem_cons, List.forall_mem_singleton]
    exact ⟨⟨by decide +kernel, by decide +kernel⟩, ⟨by decide +kernel, by decide +kernel⟩⟩
  have given : ∀ entry ∈ entries, ∀ token ∈ entry.2,
      token.isConstant = true → token.encoding.constValue ≠ none := by
    decide +kernel
  have separable : schema.Separable :=
    ⟨Schema.storable_of_readable identity header isEntries shaped settled (by decide +kernel),
      by rwa [isEntries]⟩
  -- a cut right behind the first message, and one in front of everything
  obtain ⟨cut, isCut, isPrefix⟩ := Schema.store_upTo stored 1
  have isCutOutcome : cutOutcome (startedDraft .lastWins)
      [(1, sideMessage [buy, sell]), (2, pingMessage)] 1 = some none := by
    decide +kernel
  obtain ⟨proper, _⟩ := cutOutcome_eq_some added built stored isCut isCutOutcome
  have noBytes : Schema.load [] draft.options = .error (.unexpectedEnd 0) := rfl
  have notEmpty : [] ≠ bytes := by
    rintro rfl
    exact proper (List.prefix_nil.mp isPrefix)
  have behindFirst := Schema.load_of_cut reachable built separable stored isPrefix proper
  have inFront :=
    Schema.load_of_cut reachable built separable stored List.nil_prefix notEmpty
  refine ⟨draft, schema, bytes, cut, reachable, built, separable, stored, isPrefix, proper,
    List.nil_prefix, notEmpty, ?_, ?_⟩
  · exact behindFirst.resolve_right fun other => other.1 1 isCut
  · refine inFront.resolve_left ?_
    rintro ⟨_, _, _, again, loaded, _⟩
    rw [noBytes] at loaded
    cases loaded

/-! ### Nesting alone -/

/-- Adding messages leaves the choices as they are. -/
theorem SchemaDraft.options_of_addMessages {messages : List (Int64 × List Token)} :
    ∀ {draft extended : SchemaDraft}, draft.addMessages messages = .ok extended →
      extended.options = draft.options := by
  induction messages with
  | nil =>
      intro draft extended added
      cases added
      rfl
  | cons first others ih =>
      intro draft extended added
      rw [SchemaDraft.addMessages, List.foldlM_cons] at added
      obtain ⟨between, accepted, addedOthers⟩ := ok_of_bind added
      obtain ⟨_, _, _, _, _, rfl⟩ := SchemaDraft.addMessage_settles accepted
      have later : SchemaDraft.addMessages _ others = .ok extended := addedOthers
      exact (ih later).trans rfl

/-- Whether some schema of nested messages is stored, and cannot be loaded from what is left if that
is cut right behind its first message. -/
def CutInVain (fault : StoredError) : Prop :=
  ∃ (draft : SchemaDraft) (schema : Schema) (bytes cut : List UInt8),
    draft.Reachable .lastWins ∧ draft.options = {} ∧ draft.build = .ok schema ∧
      schema.Storable Nested ∧ schema.store = .ok bytes ∧ cut <+: bytes ∧ cut ≠ bytes ∧
      (schema.upTo 1).store = .ok cut ∧ Schema.load cut draft.options = .error fault

/-- A schema is cut in vain if its messages are nested and its first one is not loaded. -/
theorem cutInVain_of_outcome {messages entries : List (Int64 × List Token)}
    {fault : StoredError} {wholeFault : Option StoredError}
    (isOutcome : storedOutcome (startedDraft .lastWins) messages =
      some ⟨{ packageName := "orders" }, storedHeader, entries, wholeFault⟩)
    (isFault : cutOutcome (startedDraft .lastWins) messages 1 = some (some fault))
    (shaped : ∀ entry ∈ entries, MessageShaped Nested entry.1 entry.2)
    (settled : ∀ entry ∈ entries, MessageSettled entry.2)
    (readable : ∀ token ∈ entries.flatMap (·.2), token.ReadsItself) : CutInVain fault := by
  obtain ⟨draft, schema, bytes, added, built, stored, identity, header, isEntries, _⟩ :=
    storedOutcome_eq_some isOutcome
  obtain ⟨cut, isCut, isPrefix⟩ := Schema.store_upTo stored 1
  have started : (startedDraft .lastWins).Reachable .lastWins := .start _ _ _ rfl
  have options : draft.options = {} := SchemaDraft.options_of_addMessages added
  obtain ⟨proper, fails⟩ := cutOutcome_eq_some added built stored isCut isFault
  exact ⟨draft, schema, bytes, cut, started.addMessages added, options, built,
    Schema.storable_of_readable identity header isEntries shaped settled readable, stored,
    isPrefix, proper, isCut, fails fault rfl⟩

theorem storedPing_nested : MessageShaped Nested 2 storedPing :=
  ⟨_, _, _, rfl, rfl, rfl, rfl, rfl, .nil⟩

/-- The value of a flag. -/
def flagValue : Token :=
  FrontEnd.typeValue .validValue .uint8 "ON" (.uint 1)

/-- A set within a set of the same name.  The outer one is captured up to the end of the inner one,
and measured because the enum of a constant field in it holds the end of a set. -/
def flagsMessage : List Token :=
  around .message "Flags"
    (around .set "Bits"
      (fixedField "flag" "ON"
          (around .enumeration "Flag" [flagValue, { signal := .endSet, name := "Odd" }]) ++
        around .set "Bits" []))

/-- What is stored of it: of the enum, nothing but the value. -/
def storedFlags : List Token :=
  enclose { signal := .beginMessage, name := "Flags", storedSpan := 11 }
    (enclose { signal := .beginSet, name := "Bits", storedSpan := 9 }
      (enclose ((fixedTo "flag" "ON").withSpan 5)
          (enclose { signal := .beginEnum, name := "Flag", storedSpan := 3 }
            [flagValue.emptied.fixed] { signal := .endEnum, name := "Flag", storedSpan := 3 })
          { signal := .endField, name := "flag", storedSpan := 5 } ++
        enclose { signal := .beginSet, name := "Bits", storedSpan := 2 } []
          { signal := .endSet, name := "Bits", storedSpan := 2 })
      { signal := .endSet, name := "Bits", storedSpan := 9 })
    { signal := .endMessage, name := "Flags", storedSpan := 11 }

theorem storedFlags_nested : MessageShaped Nested (-1) storedFlags := by
  have value : Nested [flagValue.emptied.fixed] := .leaf ⟨rfl, rfl⟩ .nil
  have enum := @Nests.enclosed WithinMessage .enumeration
    { signal := .beginEnum, name := "Flag", storedSpan := 3 }
    { signal := .endEnum, name := "Flag", storedSpan := 3 } _ rfl rfl ⟨nofun, rfl⟩ value
  have inner := @Nests.enclosed WithinMessage .set
    { signal := .beginSet, name := "Bits", storedSpan := 2 }
    { signal := .endSet, name := "Bits", storedSpan := 2 } _ rfl rfl ⟨nofun, rfl⟩ .nil
  have within := @Nests.construct WithinMessage .field ((fixedTo "flag" "ON").withSpan 5)
    { signal := .endField, name := "flag", storedSpan := 5 } _ _ rfl rfl ⟨nofun, rfl⟩ enum inner
  exact ⟨_, _, _, rfl, rfl, rfl, rfl, rfl,
    @Nests.enclosed WithinMessage .set { signal := .beginSet, name := "Bits", storedSpan := 9 }
      { signal := .endSet, name := "Bits", storedSpan := 9 } _ rfl rfl ⟨nofun, rfl⟩ within⟩

/-- A cut right behind a message is in vain if a constant in the message lacks its value. -/
theorem sideMessage_cutInVain :
    CutInVain (.malformed (.missingConstantValue "SELL" 3)) := by
  have isOutcome : storedOutcome (startedDraft .lastWins)
      [(1, sideMessage [namedSide]), (2, pingMessage)] =
      some ⟨{ packageName := "orders" }, storedHeader,
        [(1, storedSide namedSide.fixed), (2, storedPing)],
        some (.malformed (.missingConstantValue "SELL" 3))⟩ := by
    decide +kernel
  refine cutInVain_of_outcome isOutcome (by decide +kernel) ?_ ?_ (by decide +kernel)
  · rw [List.forall_mem_cons, List.forall_mem_singleton]
    exact ⟨namedSide_nested, storedPing_nested⟩
  · rw [List.forall_mem_cons, List.forall_mem_singleton]
    exact ⟨⟨by decide +kernel, by decide +kernel⟩, ⟨by decide +kernel, by decide +kernel⟩⟩

/-- A cut right behind a message is in vain if a type in the message stands within another one of
its kind and name. -/
theorem flagsMessage_cutInVain :
    CutInVain (.malformed (.unclosedBegin .beginSet "Bits" 0)) := by
  have isOutcome : storedOutcome (startedDraft .lastWins)
      [(-1, flagsMessage), (2, pingMessage)] =
      some ⟨{ packageName := "orders" }, storedHeader, [(-1, storedFlags), (2, storedPing)],
        some (.malformed (.unclosedBegin .beginSet "Bits" 0))⟩ := by
    decide +kernel
  refine cutInVain_of_outcome isOutcome (by decide +kernel) ?_ ?_ (by decide +kernel)
  · rw [List.forall_mem_cons, List.forall_mem_singleton]
    exact ⟨storedFlags_nested, storedPing_nested⟩
  · rw [List.forall_mem_cons, List.forall_mem_singleton]
    exact ⟨⟨by decide +kernel, by decide +kernel⟩, ⟨by decide +kernel, by decide +kernel⟩⟩

/-- Nesting alone does not make what is left of a cut right behind a message readable. -/
theorem cut_unseparated :
    CutInVain (.malformed (.missingConstantValue "SELL" 3)) ∧
      CutInVain (.malformed (.unclosedBegin .beginSet "Bits" 0)) :=
  ⟨sideMessage_cutInVain, flagsMessage_cutInVain⟩

end WireSchema
