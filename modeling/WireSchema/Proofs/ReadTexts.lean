/-
Module: WireSchema.Proofs.ReadTexts
Purpose: The count in front of a stored text has two bytes, and the writer holds the greatest of
  these counts back: no text of more than 65534 bytes is stored.  The reader takes a text of any
  count.  So a schema that was loaded can be stored unless one of its texts has 65535 bytes, and no
  text has more (`Schema.store_of_load`); a schema whose package has a name of that length is loaded
  and cannot be stored (`load_longest`).
Main exports: Yields, Schema.texts, Schema.store_of_load, load_longest
-/
import WireSchema.Proofs.LoadedMessage
import WireSchema.Proofs.StoredRoundTrip
import WireSchema.Proofs.TextLengths

namespace WireSchema

/-!
Of the values only those come into question that are held as the text that was read.  Numbers are
written anew, in fewer than 1100 bytes.
-/

/-! ### What readers yield -/

/-- Whether whatever a reader reads is of a certain kind. -/
def Yields {α : Type} (reader : StoredReader α) (kind : α → Prop) : Prop :=
  ∀ ⦃cursor : ByteCursor⦄ ⦃value : α⦄ ⦃next : ByteCursor⦄,
    reader cursor = .ok (value, next) → kind value

namespace Yields

variable {α β : Type}

theorem any (reader : StoredReader α) : Yields reader fun _ => True :=
  fun _ _ _ _ => trivial

theorem pure {value : α} {kind : α → Prop} (isKind : kind value) :
    Yields (Pure.pure value) kind := by
  intro cursor found next isRead
  cases isRead
  exact isKind

theorem throw (problem : StoredError) (kind : α → Prop) :
    Yields (MonadExcept.throw problem : StoredReader α) kind :=
  fun _ _ _ isRead => nomatch isRead

theorem bind {first : StoredReader α} {next : α → StoredReader β} {kind : α → Prop}
    {result : β → Prop} (one : Yields first kind)
    (other : ∀ value, kind value → Yields (next value) result) :
    Yields (first >>= next) result := by
  intro cursor value last isRead
  change (first cursor >>= fun (found, between) => next found between) = _ at isRead
  obtain ⟨⟨found, between⟩, isFirst, isLast⟩ := ok_of_bind isRead
  exact other found (one isFirst) isLast

end Yields

/-! ### Texts that two bytes can count -/

/-- How many bytes an optional text takes. -/
def textLength (text : Option String) : Nat :=
  (Text.utf8Bytes (text.getD "")).length

/-- Whether a text takes no more bytes than can be counted in two bytes, which is one more than the
writer allows. -/
def Countable (text : Option String) : Prop :=
  textLength text ≤ maxTextLength + 1

theorem Countable.none : Countable none :=
  Nat.zero_le _

theorem length_take {count : Nat} :
    Yields (StoredReader.take count) fun bytes => bytes.length = count := by
  intro cursor bytes next isRead
  rw [StoredReader.take] at isRead
  split at isRead
  · rename_i enough
    cases isRead
    exact enough
  · cases isRead

theorem Text.utf8Bytes_of_ofUtf8? {bytes : List UInt8} {text : String}
    (spells : ofUtf8? bytes = some text) : utf8Bytes text = bytes := by
  rw [ofUtf8?, String.fromUTF8?] at spells
  split at spells
  · cases spells
    rfl
  · cases spells

theorem Yields.text : Yields StoredReader.text Countable := by
  refine length_take.bind fun count counted => (any _).bind fun start _ =>
    length_take.bind fun bytes isLength => ?_
  have small : ofLittleEndian count < 65536 := by
    have bound := ofLittleEndian_lt count
    rwa [counted] at bound
  split
  · exact pure Countable.none
  · split
    · rename_i text spells
      refine pure ?_
      change (Text.utf8Bytes text).length ≤ 65535
      rw [Text.utf8Bytes_of_ofUtf8? spells, isLength]
      omega
    · exact throw _ _

theorem Yields.value (type : Option PrimitiveType) : Yields (StoredReader.value type)
    fun value => Countable (value.map fun value => value.schemaText type) := by
  refine text.bind fun written countable => ?_
  cases written with
  | none => exact pure Countable.none
  | some written =>
      cases parsed : Value.parse written type with
      | ok value =>
          simp only [parsed]
          refine pure ?_
          rcases Value.schemaText_of_parse parsed with same | short
          · rw [Option.map_some, same]
            exact countable
          · exact Nat.le_of_lt (short.trans (by decide))
      | error problem =>
          simp only [parsed]
          exact throw _ _

/-! ### Tokens and frames -/

/-- Whether every text of a token can be counted in two bytes. -/
def Token.Countable (token : Token) : Prop :=
  ∀ text ∈ tokenTexts token, WireSchema.Countable text.2

theorem Countable.getD {text : Option String} (countable : Countable text) :
    Countable (some (text.getD "")) :=
  countable

theorem Yields.token : Yields StoredReader.token Token.Countable := by
  refine (any _).bind fun _ _ => (any _).bind fun _ _ => (any _).bind fun _ _ =>
    (any _).bind fun _ _ => (any _).bind fun _ _ => (any _).bind fun _ _ =>
      (any _).bind fun type _ => (any _).bind fun _ _ => (any _).bind fun _ _ => ?_
  refine text.bind fun name isName => (value type).bind fun constValue isConst =>
    (value type).bind fun minValue isMin => (value type).bind fun maxValue isMax =>
      (value type).bind fun nullValue isNull => ?_
  refine text.bind fun characters isCharacters => text.bind fun epoch isEpoch =>
    text.bind fun unit isUnit => text.bind fun semantics isSemantics =>
      text.bind fun description isDescription => pure ?_
  simp only [Token.Countable, tokenTexts, List.forall_mem_cons]
  exact ⟨isName.getD, isConst, isMin, isMax, isNull, isCharacters, isEpoch, isUnit, isSemantics,
    isDescription, List.forall_mem_nil _⟩

theorem Yields.tokens (bound : Nat) :
    Yields (StoredReader.tokens bound) fun tokens => ∀ token ∈ tokens, token.Countable := by
  induction bound with
  | zero => exact pure (List.forall_mem_nil _)
  | succ bound ih =>
      refine (any _).bind fun cursor _ => ?_
      split
      · exact pure (List.forall_mem_nil _)
      · exact token.bind fun first isFirst => ih.bind fun others areOthers =>
          pure (List.forall_mem_cons.mpr ⟨isFirst, areOthers⟩)

/-- The texts of the frame, each with the name of its field. -/
def frameTexts (identity : SchemaIdentity) : List (String × Option String) :=
  [("package_name", some identity.packageName), ("namespace_name", identity.namespaceName),
    ("semantic_version", identity.semanticVersion)]

theorem Yields.frame : Yields StoredReader.frame fun identity =>
    ∀ text ∈ frameTexts identity, Countable text.2 := by
  refine (any _).bind fun _ _ => (any _).bind fun _ _ => (any _).bind fun _ _ =>
    text.bind fun package isPackage => text.bind fun space isSpace =>
      text.bind fun semantic isSemantic => pure ?_
  simp only [frameTexts, List.forall_mem_cons]
  exact ⟨isPackage.getD, isSpace, isSemantic, List.forall_mem_nil _⟩

theorem Yields.contents (length : Nat) : Yields (StoredReader.contents length) fun found =>
    (∀ text ∈ frameTexts found.1, Countable text.2) ∧ ∀ token ∈ found.2, token.Countable := by
  rw [StoredReader.contents_eq]
  exact frame.bind fun identity isIdentity => (tokens length).bind fun all areAll =>
    pure ⟨isIdentity, areAll⟩

/-! ### The loaded schema -/

theorem tokenTexts_of_unspanned {token other : Token} (same : token.unspanned = other.unspanned) :
    tokenTexts token = tokenTexts other :=
  (congrArg tokenTexts same : tokenTexts token.unspanned = tokenTexts other.unspanned)

/-- Measuring tokens leaves their texts as they are. -/
theorem countable_of_withSpans {tokens measured : List Token}
    (isMeasured : withSpans tokens = .ok measured)
    (countable : ∀ token ∈ tokens, token.Countable) : ∀ token ∈ measured, token.Countable := by
  intro token member
  obtain ⟨source, isSource, same⟩ := exists_unspanned (unspanned_withSpans isMeasured) member
  rw [Token.Countable, ← tokenTexts_of_unspanned same]
  exact countable source isSource

/-- Whether every text of the messages of a draft can be counted in two bytes. -/
def SchemaDraft.Countable (draft : SchemaDraft) : Prop :=
  ∀ entry ∈ draft.messages.entries, ∀ token ∈ entry.2, token.Countable

theorem SchemaDraft.Countable.addMessage {draft extended : SchemaDraft} {messageId : Int64}
    {tokens : List Token} (countable : draft.Countable)
    (accepted : draft.addMessage messageId tokens = .ok extended)
    (inMessage : ∀ token ∈ tokens, token.Countable) : extended.Countable := by
  obtain ⟨_, reduced, measured, _, _, _, isReduced, isMeasured, _, rfl⟩ :=
    SchemaDraft.addMessage_steps accepted
  have inReduced := forall_of_reduceConstants (fun _ kept => kept) (fun _ kept => kept) isReduced
    inMessage
  intro entry member
  rcases Registry.mem_insert member with rfl | isOld
  · exact countable_of_withSpans isMeasured inReduced
  · exact countable entry isOld

theorem SchemaDraft.Countable.addStoredMessages {draft last : SchemaDraft} {tokens : List Token}
    (countable : draft.Countable) (inTokens : ∀ token ∈ tokens, token.Countable)
    (added : WireSchema.addStoredMessages draft tokens = .ok last) :
    last.Countable ∧ last.identity = draft.identity ∧ last.headerTokens = draft.headerTokens := by
  have isSuffix := List.dropWhile_suffix (l := tokens) (·.signal ≠ .beginMessage)
  rcases addStoredMessages_ok added with ⟨_, rfl⟩ |
    ⟨opening, body, closing, rest, extended, isFront, _, accepted, addedRest⟩
  · exact ⟨countable, rfl, rfl⟩
  rw [isFront] at isSuffix
  have shorter := isSuffix.length_le
  rw [List.length_append, length_enclose] at shorter
  have fewerTokens : rest.length < tokens.length := by omega
  have inFront : ∀ token ∈ enclose opening body closing ++ rest, token.Countable :=
    fun token member => inTokens token (isSuffix.subset member)
  rw [List.forall_mem_append] at inFront
  have inExtended := countable.addMessage accepted inFront.1
  obtain ⟨inLast, identity, headerTokens⟩ := inExtended.addStoredMessages inFront.2 addedRest
  obtain ⟨_, _, _, _, _, _, _, _, _, rfl⟩ := SchemaDraft.addMessage_steps accepted
  exact ⟨inLast, identity, headerTokens⟩
termination_by tokens.length

theorem splitHeader_append {tokens header rest : List Token}
    (isSplit : splitHeader tokens = .ok (header, rest)) : header ++ rest = tokens := by
  unfold splitHeader at isSplit
  split at isSplit
  · cases isSplit
  split at isSplit
  · split at isSplit
    · cases isSplit
    · cases isSplit
      exact List.take_append_drop _ _
  · cases isSplit

/-- All texts that are stored of a schema, each with the name of its field. -/
def Schema.texts (schema : Schema) : List (String × Option String) :=
  frameTexts schema.identity ++ schema.storedTokens.flatMap tokenTexts

/-- Every text of a loaded schema can be counted in two bytes. -/
theorem Schema.countable_of_load {bytes : List UInt8} {options : SchemaOptions} {schema : Schema}
    (loaded : Schema.load bytes options = .ok schema) :
    ∀ text ∈ schema.texts, Countable text.2 := by
  obtain ⟨⟨⟨identity, tokens⟩, cursor⟩, isRead, loaded⟩ := ok_of_bind loaded
  obtain ⟨inFrame, inTokens⟩ := Yields.contents _ isRead
  obtain ⟨⟨headerTokens, rest⟩, isSplit, loaded⟩ := ok_of_bind loaded
  obtain ⟨last, isLast, isBuilt⟩ := ok_of_bind loaded
  rw [← splitHeader_append isSplit, List.forall_mem_append] at inTokens
  have nothing : ({ options, identity, headerTokens } : SchemaDraft).Countable :=
    fun entry member => absurd member List.not_mem_nil
  obtain ⟨inMessages, sameIdentity, sameHeader⟩ := nothing.addStoredMessages inTokens.2 isLast
  split at isBuilt
  · rename_i built becomes
    cases isBuilt
    obtain ⟨measured, isMeasured, isHeader, isIdentity, _, areMessages⟩ :=
      SchemaDraft.build_steps becomes
    obtain ⟨isTokens, _⟩ := HeaderStructure.ofTokens_remeasured isHeader
    rw [sameHeader] at isMeasured
    rw [Schema.texts, List.forall_mem_append, isIdentity, sameIdentity, List.forall_mem_flatMap,
      Schema.storedTokens, List.forall_mem_append, List.forall_mem_flatMap, isTokens, areMessages]
    exact ⟨inFrame, countable_of_withSpans isMeasured inTokens.1, inMessages⟩
  · cases isBuilt

/-! ### Which texts are stored -/

/-- Whether a text is too long to be stored, and the fault of that. -/
def TooLong (texts : List (String × Option String)) (problem : StoredError) : Prop :=
  ∃ text ∈ texts, maxTextLength < textLength text.2 ∧
    problem = .stringTooLong text.1 (textLength text.2)

/-- Texts are stored only if none is too long. -/
theorem fits_of_storedTexts {texts : List (String × Option String)} {bytes : List UInt8}
    (stored : storedTexts texts = .ok bytes) :
    ∀ text ∈ texts, textLength text.2 ≤ maxTextLength := by
  obtain ⟨pieces, arePieces, _⟩ := ok_of_map stored
  intro text member
  obtain ⟨piece, isPiece⟩ := ok_of_mapM arePieces text member
  rw [storedText] at isPiece
  split at isPiece
  · cases isPiece
  · rename_i short
    exact Nat.le_of_not_lt short

/-- Texts are not stored only if one of them is too long. -/
theorem tooLong_of_storedTexts {texts : List (String × Option String)} {problem : StoredError}
    (failed : storedTexts texts = .error problem) : TooLong texts problem := by
  obtain ⟨text, member, fails⟩ := error_of_mapM (error_of_map failed)
  rw [storedText] at fails
  split at fails
  · rename_i long
    exact ⟨text, member, long, (Except.error.inj fails).symm⟩
  · cases fails

/-- A schema is stored only if none of its texts is too long. -/
theorem Schema.fits_of_store {schema : Schema} {bytes : List UInt8}
    (stored : schema.store = .ok bytes) :
    ∀ text ∈ schema.texts, textLength text.2 ≤ maxTextLength := by
  obtain ⟨frame, isFrame, stored⟩ := ok_of_bind stored
  obtain ⟨pieces, arePieces, _⟩ := ok_of_bind stored
  obtain ⟨_, isStored, _⟩ := ok_of_map isFrame
  rw [texts, List.forall_mem_append, List.forall_mem_flatMap]
  refine ⟨fits_of_storedTexts isStored, fun token member => ?_⟩
  obtain ⟨piece, isPiece⟩ := ok_of_mapM arePieces token member
  obtain ⟨_, isStored, _⟩ := ok_of_map isPiece
  exact fits_of_storedTexts isStored

/-- A schema is not stored only if one of its texts is too long. -/
theorem Schema.tooLong_of_store {schema : Schema} {problem : StoredError}
    (failed : schema.store = .error problem) : TooLong schema.texts problem := by
  rw [Schema.store] at failed
  cases isFrame : storedFrame schema.identity with
  | error reason =>
      rw [isFrame] at failed
      cases failed
      obtain ⟨text, member, tooLong⟩ := tooLong_of_storedTexts (error_of_map isFrame)
      exact ⟨text, List.mem_append_left _ member, tooLong⟩
  | ok frame =>
      cases arePieces : schema.storedTokens.mapM storedToken with
      | error reason =>
          rw [isFrame, arePieces] at failed
          cases failed
          obtain ⟨token, isToken, fails⟩ := error_of_mapM arePieces
          obtain ⟨text, member, tooLong⟩ := tooLong_of_storedTexts (error_of_map fails)
          have isText : text ∈ schema.storedTokens.flatMap tokenTexts :=
            List.mem_flatMap.mpr ⟨token, isToken, member⟩
          exact ⟨text, List.mem_append_right _ isText, tooLong⟩
      | ok pieces =>
          rw [isFrame, arePieces] at failed
          cases failed

/-- A schema that was loaded has no text of more than one byte beyond what can be stored; it can be
stored just if none has that one byte more, and if it cannot, that is said of such a text. -/
theorem Schema.store_of_load {bytes : List UInt8} {options : SchemaOptions} {schema : Schema}
    (loaded : Schema.load bytes options = .ok schema) :
    (∀ text ∈ schema.texts, textLength text.2 ≤ maxTextLength + 1) ∧
      ((∃ stored, schema.store = .ok stored) ↔
        ∀ text ∈ schema.texts, textLength text.2 ≠ maxTextLength + 1) ∧
      ∀ problem, schema.store = .error problem →
        ∃ text ∈ schema.texts, textLength text.2 = maxTextLength + 1 ∧
          problem = .stringTooLong text.1 (maxTextLength + 1) := by
  have countable := Schema.countable_of_load loaded
  have longest : ∀ text ∈ schema.texts, maxTextLength < textLength text.2 →
      textLength text.2 = maxTextLength + 1 :=
    fun text member long => Nat.le_antisymm (countable text member) long
  refine ⟨countable, ⟨?_, fun none => ?_⟩, fun problem failed => ?_⟩
  · rintro ⟨stored, isStored⟩ text member isLongest
    have fits := Schema.fits_of_store isStored text member
    omega
  · cases isStored : schema.store with
    | ok stored => exact ⟨stored, rfl⟩
    | error problem =>
        obtain ⟨text, member, long, _⟩ := Schema.tooLong_of_store isStored
        exact absurd (longest text member long) (none text member)
  · obtain ⟨text, member, long, rfl⟩ := Schema.tooLong_of_store failed
    have isLongest := longest text member long
    exact ⟨text, member, isLongest, by rw [isLongest]⟩

/-! ### A name of the greatest length -/

/-- A frame with a package of any name that two bytes can count is read. -/
theorem Reads.frame_named {package : String} (short : (Text.utf8Bytes package).length < 65536) :
    ∃ frame, Reads StoredReader.frame frame { packageName := package } := by
  have named := Reads.spelled package short
  have unnamed : Reads StoredReader.text _ none := Reads.spelled "" (by decide)
  have reads : ∃ frame, Reads StoredReader.frame frame
      { packageName := ((some package).filter (· ≠ "")).getD "" } :=
    ⟨_, (Reads.int32 0).bind ((Reads.int32 0).bind ((Reads.int32 0).bind (named.bind
      (unnamed.bind (unnamed.bind (Reads.pure _))))))⟩
  rwa [getD_filter_nonempty] at reads

/-- A schema whose package has any name that two bytes can count is loaded. -/
theorem exists_load_named {package : String} (short : (Text.utf8Bytes package).length < 65536) :
    ∃ (bytes : List UInt8) (schema : Schema),
      Schema.load bytes {} = .ok schema ∧ schema.identity = { packageName := package } := by
  obtain ⟨frame, readsFrame⟩ := Reads.frame_named short
  obtain ⟨pieces, arePieces⟩ : ∃ pieces, storedHeader.mapM storedToken = .ok pieces :=
    exists_ok_of_isSome (by decide +kernel)
  have isMeasured : withSpans FrontEnd.headerTokens = .ok storedHeader := by decide +kernel
  obtain ⟨header, isHeader⟩ : ∃ header, HeaderStructure.ofTokens storedHeader = .ok header :=
    exists_ok_of_isSome (by decide +kernel)
  obtain ⟨_, isHeaderAgain⟩ := HeaderStructure.ofTokens_remeasured isHeader
  let draft : SchemaDraft :=
    { identity := { packageName := package }, headerTokens := storedHeader.map Token.reread }
  have added : addStoredMessages draft [] = .ok draft := by
    rw [addStoredMessages]
    rfl
  have built : draft.build = .ok
      { identity := { packageName := package }
        namespaces := draft.identity.namespaces draft.options.collapseNamespaces
        header := header.remeasured, messages := {}, types := {} } := by
    rw [SchemaDraft.build, bind_of_ok (storedHeader_shaped.measured isMeasured),
      bind_of_ok isHeaderAgain]
  have legible : ∀ token ∈ storedHeader ++ [], token.Legible := by
    rw [List.append_nil]
    exact storedHeader_legible
  rw [← List.append_nil storedHeader] at arePieces
  exact ⟨_, _, Schema.load_of_frame readsFrame storedHeader_shaped legible arePieces added built,
    rfl⟩

/-- The longest name that two bytes can count. -/
def longestName : String :=
  String.ofList (List.replicate (maxTextLength + 1) 'a')

theorem length_longestName : textLength (some longestName) = maxTextLength + 1 := by
  have ascii : ∀ character ∈ List.replicate (maxTextLength + 1) 'a', character.val ≤ 127 := by
    intro character member
    rw [List.eq_of_mem_replicate member]
    decide
  exact (Text.length_utf8Bytes_ofList ascii).trans List.length_replicate

/-- A schema with the longest name is loaded, and cannot be stored. -/
theorem Schema.store_of_load_longest :
    ∃ (bytes : List UInt8) (schema : Schema), Schema.load bytes {} = .ok schema ∧
      ("package_name", some longestName) ∈ schema.texts ∧
      (∀ text ∈ schema.texts, textLength text.2 ≤ maxTextLength + 1) ∧
      ¬∃ stored, schema.store = .ok stored := by
  have short : (Text.utf8Bytes longestName).length < 65536 := by
    have length := length_longestName
    change (Text.utf8Bytes longestName).length = 65535 at length
    omega
  obtain ⟨bytes, schema, loaded, identity⟩ := exists_load_named short
  have member : ("package_name", some longestName) ∈ schema.texts := by
    rw [Schema.texts, identity]
    exact List.mem_cons_self
  obtain ⟨countable, storable, _⟩ := Schema.store_of_load loaded
  exact ⟨bytes, schema, loaded, member, countable,
    fun stored => storable.mp stored _ member length_longestName⟩

/-- A schema may be loaded that cannot be stored. -/
theorem load_longest :
    ∃ (bytes : List UInt8) (schema : Schema), Schema.load bytes {} = .ok schema ∧
      schema.identity.packageName = longestName ∧
      schema.store = .error (.stringTooLong "package_name" 65535) := by
  have isLongest := length_longestName
  change (Text.utf8Bytes longestName).length = 65535 at isLongest
  have short : (Text.utf8Bytes longestName).length < 65536 := by omega
  obtain ⟨bytes, schema, loaded, identity⟩ := exists_load_named short
  have tooLong : storedText ("package_name", some longestName) =
      .error (.stringTooLong "package_name" 65535) := by
    rw [storedText, if_pos]
    · change Except.error (StoredError.stringTooLong _ (Text.utf8Bytes longestName).length) = _
      rw [isLongest]
    · change 65534 < (Text.utf8Bytes longestName).length
      omega
  refine ⟨bytes, schema, loaded, by rw [identity], ?_⟩
  rw [Schema.store, identity, storedFrame, storedTexts, List.mapM_cons, tooLong]
  rfl

end WireSchema
