/-
Module: WireSchema.Proofs.ReloadedOutline
Purpose: The stored form holds neither the numbers that messages were added under nor how many
  tokens they have.  Where a message begins and ends is told from its tokens, and its number is that
  of the token that opens it.
Main exports: Token.Echoes, Registry.outline, EndsItself, Schema.load_outline, outline_changes
-/
import WireSchema.Proofs.ReloadedNested
import WireSchema.Proofs.StoredRoundTrip

namespace WireSchema

/-!
So if a schema is loaded at all, and its header ended with the first token that closes a composite
of its name, the messages are those that were stored, under the same numbers and each with as many
tokens, just if each of them was under the number of its opening token and ended with the first
token that closes a message of its name (`Schema.load_outline`).  For want of that messages are put
under other numbers, replaced, cut or run together (`outline_changes`).  Nothing is asked of the
values and texts of the tokens: where one of them cannot be read the schema is not loaded, and where
one is read as another value it plays no part in this.
-/

/-! ### Readers that may fail -/

/-- Where a reader succeeds on an input that begins with certain bytes, it stops right behind them,
with a value of a certain kind. -/
def ReadsTo {α : Type} (reader : StoredReader α) (bytes : List UInt8) (kind : α → Prop) : Prop :=
  ∀ position rest value next, reader ⟨position, bytes ++ rest⟩ = .ok (value, next) →
    next = ⟨position + bytes.length, rest⟩ ∧ kind value

namespace ReadsTo

variable {α β : Type}

theorem pure {value : α} {kind : α → Prop} (isKind : kind value) :
    ReadsTo (Pure.pure value) [] kind := by
  intro position rest found next isRead
  cases isRead
  exact ⟨rfl, isKind⟩

theorem throw (problem : StoredError) (kind : α → Prop) :
    ReadsTo (MonadExcept.throw problem : StoredReader α) [] kind := by
  intro position rest found next isRead
  cases isRead

theorem bind {first : StoredReader α} {next : α → StoredReader β} {bytes more : List UInt8}
    {kind : α → Prop} {result : β → Prop} (one : ReadsTo first bytes kind)
    (other : ∀ value, kind value → ReadsTo (next value) more result) :
    ReadsTo (first >>= next) (bytes ++ more) result := by
  intro position rest value last isRead
  rw [List.append_assoc] at isRead
  change (first ⟨position, bytes ++ (more ++ rest)⟩ >>= fun (found, cursor) => next found cursor) =
    _ at isRead
  obtain ⟨⟨found, cursor⟩, isFirst, isLast⟩ := ok_of_bind isRead
  obtain ⟨rfl, isKind⟩ := one _ _ _ _ isFirst
  obtain ⟨rfl, isResult⟩ := other found isKind _ _ _ _ isLast
  exact ⟨by rw [List.length_append, Nat.add_assoc], isResult⟩

end ReadsTo

/-- A reader that needs no more bytes after certain ones that are always read. -/
theorem Reads.thenTo {α β : Type} {first : StoredReader α} {next : α → StoredReader β}
    {bytes more : List UInt8} {value : α} {result : β → Prop} (one : Reads first bytes value)
    (other : ReadsTo (next value) more result) :
    ReadsTo (first >>= next) (bytes ++ more) result := by
  intro position rest found last isRead
  rw [List.append_assoc, one.step] at isRead
  obtain ⟨rfl, isResult⟩ := other _ _ _ _ isRead
  exact ⟨by rw [List.length_append, Nat.add_assoc], isResult⟩

namespace ReadsTo

/-- A value, whatever its text is read as. -/
theorem value {text : String × Option String} {bytes : List UInt8} (type : Option PrimitiveType)
    (isStored : storedText text = .ok bytes) :
    ReadsTo (StoredReader.value type) bytes fun _ => True := by
  rw [← List.append_nil bytes]
  refine (Reads.text isStored).thenTo ?_
  cases text.2.filter (· ≠ "") with
  | none => exact pure trivial
  | some written =>
      cases parsed : Value.parse written type with
      | ok value =>
          simp only [parsed]
          exact pure trivial
      | error problem =>
          simp only [parsed]
          exact throw _ _

/-- The frame, whatever its texts are read as. -/
theorem frame {identity : SchemaIdentity} {bytes : List UInt8}
    (isStored : storedFrame identity = .ok bytes) :
    ReadsTo StoredReader.frame bytes fun _ => True := by
  obtain ⟨texts, isTexts, rfl⟩ := ok_of_map isStored
  obtain ⟨package, _, isPackage, afterPackage, rfl⟩ := storedTexts_cons isTexts
  obtain ⟨space, _, isSpace, afterSpace, rfl⟩ := storedTexts_cons afterPackage
  obtain ⟨semantic, _, isSemantic, afterAll, rfl⟩ := storedTexts_cons afterSpace
  obtain rfl : [] = _ := Except.ok.inj afterAll
  simp only [List.append_assoc]
  exact (Reads.int32 _).thenTo ((Reads.int32 _).thenTo ((Reads.int32 _).thenTo
    ((Reads.text isPackage).thenTo ((Reads.text isSpace).thenTo
      ((Reads.text isSemantic).thenTo (pure trivial))))))

end ReadsTo

/-! ### Tokens that are read -/

/-- What a token that was read has in common with the one that was stored. -/
structure Token.Echoes (token found : Token) : Prop where
  signal : found.signal = token.signal
  name : found.name = token.name
  id : found.id = token.id
  presence : found.encoding.presence = token.encoding.presence

theorem ReadsTo.token {token : Token} {bytes : List UInt8}
    (isStored : storedToken token = .ok bytes) :
    ReadsTo StoredReader.token bytes token.Echoes := by
  obtain ⟨pieces, rfl⟩ := storedToken_pieces isStored
  rw [tokenBlock_append]
  refine (Reads.int32 _).thenTo ((Reads.int32 _).thenTo ((Reads.int32 _).thenTo
    ((Reads.int32 _).thenTo ((Reads.int32 _).thenTo ?_))))
  refine (Reads.coded (Signal.ofCode?_code _)).thenTo
    ((Reads.coded (typeOfCode?_typeCode _)).thenTo
      ((Reads.coded (ByteOrder.ofCode?_code _)).thenTo
        ((Reads.coded (Presence.ofCode?_code _)).thenTo ?_)))
  refine (Reads.text pieces.isName).thenTo ?_
  refine (ReadsTo.value _ pieces.isConst).bind fun _ _ =>
    (ReadsTo.value _ pieces.isMin).bind fun _ _ =>
      (ReadsTo.value _ pieces.isMax).bind fun _ _ =>
        (ReadsTo.value _ pieces.isNull).bind fun _ _ => ?_
  refine (Reads.text pieces.isCharacters).thenTo ((Reads.text pieces.isEpoch).thenTo
    ((Reads.text pieces.isUnit).thenTo ((Reads.text pieces.isSemantics).thenTo
      ((Reads.text pieces.isDescription).thenTo (ReadsTo.pure ?_)))))
  exact ⟨rfl, getD_filter_nonempty token.name, rfl, rfl⟩

/-- The tokens that are read up to the end of the input are echoes of those that were stored. -/
theorem StoredReader.tokens_echo {tokens : List Token} {pieces : List (List UInt8)}
    (isStored : tokens.mapM storedToken = .ok pieces) {bound start : Nat} {found : List Token}
    {next : ByteCursor} (enough : pieces.flatten.length ≤ bound)
    (isRead : StoredReader.tokens bound ⟨start, pieces.flatten⟩ = .ok (found, next)) :
    List.Forall₂ Token.Echoes tokens found := by
  induction tokens generalizing pieces bound start found with
  | nil =>
      obtain rfl : [] = pieces := Except.ok.inj isStored
      rw [List.flatten_nil, StoredReader.tokens_nil] at isRead
      cases isRead
      exact .nil
  | cons token rest ih =>
      rw [List.mapM_cons] at isStored
      obtain ⟨bytes, isBytes, isStored⟩ := ok_of_bind isStored
      obtain ⟨others, isOthers, isStored⟩ := ok_of_bind isStored
      cases isStored
      have nonempty := storedToken_ne_nil isBytes
      rw [List.flatten_cons, List.length_append] at enough
      obtain ⟨less, rfl⟩ : ∃ less, bound = less + 1 := ⟨bound - 1, by omega⟩
      have more : bytes ++ others.flatten ≠ [] := by
        intro empty
        have none := congrArg List.length empty
        rw [List.length_append, List.length_nil] at none
        omega
      rw [List.flatten_cons, StoredReader.tokens_succ more] at isRead
      obtain ⟨⟨first, cursor⟩, isFirst, isRead⟩ := ok_of_bind isRead
      obtain ⟨⟨later, last⟩, isLater, isRead⟩ := ok_of_bind isRead
      cases isRead
      obtain ⟨rfl, echoes⟩ := ReadsTo.token isBytes _ _ _ _ isFirst
      exact .cons echoes (ih isOthers (by omega) isLater)

/-- The contents that are read hold echoes of the tokens that were stored. -/
theorem StoredReader.contents_echo {identity : SchemaIdentity} {tokens : List Token}
    {frame : List UInt8} {pieces : List (List UInt8)} (isFrame : storedFrame identity = .ok frame)
    (isStored : tokens.mapM storedToken = .ok pieces) {found : SchemaIdentity × List Token}
    {next : ByteCursor}
    (isRead : StoredReader.contents (frame ++ pieces.flatten).length ⟨0, frame ++ pieces.flatten⟩ =
      .ok (found, next)) : List.Forall₂ Token.Echoes tokens found.2 := by
  rw [StoredReader.contents_eq] at isRead
  obtain ⟨⟨foundFrame, cursor⟩, isFirst, isRead⟩ := ok_of_bind isRead
  obtain ⟨⟨all, last⟩, isAll, isRead⟩ := ok_of_bind isRead
  cases isRead
  obtain ⟨rfl, _⟩ := ReadsTo.frame isFrame _ _ _ _ isFirst
  refine StoredReader.tokens_echo isStored ?_ isAll
  rw [List.length_append]
  exact Nat.le_add_left _ _

/-! ### Echoes of tokens that were reduced -/

namespace Token.Echoes

theorem isConstant {token found : Token} (echoes : token.Echoes found) :
    found.isConstant = token.isConstant :=
  congrArg (· == Presence.constant) echoes.presence

theorem isNamed {token found : Token} (echoes : token.Echoes found) (signal : Signal)
    (name : String) : Token.isNamed signal name found = Token.isNamed signal name token := by
  rw [Token.isNamed, Token.isNamed, echoes.signal, echoes.name]

end Token.Echoes

theorem wrapsConstantEnum_echo {field found : Token} {rest others : List Token}
    (echoes : field.Echoes found) (alike : List.Forall₂ Token.Echoes rest others) :
    wrapsConstantEnum found others = wrapsConstantEnum field rest := by
  cases alike with
  | nil => simp [wrapsConstantEnum]
  | cons first _ => simp [wrapsConstantEnum, echoes.signal, echoes.isConstant, first.signal]

/-- Reducing echoes of tokens that are not reduced further keeps their number. -/
theorem length_of_reduceConstants_echo {index : Nat} {tokens : List Token}
    (settled : reduceConstants index tokens = .ok tokens) {others : List Token}
    (alike : List.Forall₂ Token.Echoes tokens others) {again : Nat} {reduced : List Token}
    (accepted : reduceConstants again others = .ok reduced) : reduced.length = others.length := by
  fun_induction reduceConstants index tokens generalizing others again reduced with
  | case1 =>
      cases alike
      rw [reduceConstants] at accepted
      cases accepted
      rfl
  | case2 index token wraps => simp [wrapsConstantEnum] at wraps
  | case3 => cases settled
  | case4 => cases settled
  | case5 index field opening body closing after ending values reference kept named =>
      rename_i wraps ih
      obtain ⟨later, isLater, settled⟩ := ok_of_bind settled
      have stops := List.head?_dropWhile_not
        (fun token : Token => decide (token.signal ≠ .endEnum)) body
      rw [ending] at stops
      have closes : closing.signal = .endEnum := by simpa using stops
      have within : kept.signal ≠ .endEnum := by
        simpa using List.mem_takeWhile_imp (List.mem_of_find?_eq_some named)
      -- the enum holds one value, behind which it ends
      have isBody : body = kept.emptied.fixed :: closing.emptied :: later := by
        injection settled with same
        exact (List.cons.inj (List.cons.inj same).2).2.symm
      have behind : body.dropWhile (fun token => decide (token.signal ≠ .endEnum)) =
          closing.emptied :: later := by
        have keptWithin : kept.emptied.fixed.signal ≠ .endEnum := within
        have emptiedCloses : closing.emptied.signal = .endEnum := closes
        simp [isBody, keptWithin, emptiedCloses]
      rw [ending] at behind
      obtain ⟨_, rfl⟩ := List.cons.inj behind
      subst isBody
      simp only [wrapsConstantEnum, Bool.and_eq_true, beq_iff_eq] at wraps
      obtain ⟨foundField, _, echoesField, alikeEnum, rfl⟩ := List.forall₂_cons_left_iff.mp alike
      obtain ⟨foundOpening, _, echoesOpening, alikeBody, rfl⟩ :=
        List.forall₂_cons_left_iff.mp alikeEnum
      obtain ⟨foundKept, _, echoesKept, alikeEnding, rfl⟩ :=
        List.forall₂_cons_left_iff.mp alikeBody
      obtain ⟨foundClosing, behindFound, echoesClosing, alikeBehind, rfl⟩ :=
        List.forall₂_cons_left_iff.mp alikeEnding
      have foundWithin : ∀ value ∈ [foundKept], value.signal ≠ .endEnum := by
        rw [List.forall_mem_singleton, echoesKept.signal]
        exact within
      obtain ⟨_, _, reducedBehind, _, isReduced, rfl⟩ := reduceConstants_constantEnum
        (echoesField.signal.trans wraps.1.1) (echoesField.isConstant.trans wraps.1.2)
        (echoesOpening.signal.trans wraps.2) foundWithin (echoesClosing.signal.trans closes)
        accepted
      simp only [List.length_cons, ih isLater alikeBehind isReduced]
  | case6 index token rest plain ih =>
      obtain ⟨later, isLater, settled⟩ := ok_of_bind settled
      obtain ⟨found, foundRest, echoes, alikeRest, rfl⟩ := List.forall₂_cons_left_iff.mp alike
      have sameRest : later = rest := by
        injection settled with same
        exact (List.cons.inj same).2
      subst sameRest
      have stillPlain : wrapsConstantEnum found foundRest = false := by
        rw [wrapsConstantEnum_echo echoes alikeRest]
        simpa using plain
      obtain ⟨reducedRest, isReduced, rfl⟩ := reduceConstants_eq_ok_cons stillPlain accepted
      rw [List.length_cons, List.length_cons, ih isLater alikeRest isReduced]

/-! ### Outlines -/

/-- The numbers of some messages, each with how many tokens the message has. -/
def Registry.outline (messages : Registry Int64 (List Token)) : Registry Int64 Nat :=
  ⟨messages.entries.map fun entry => (entry.1, entry.2.length)⟩

/-- The number that a message has by its first token. -/
def openingNumber (tokens : List Token) : Int64 :=
  match tokens with
  | [] => 0
  | first :: _ => first.id.toInt64

/-- Whether a message ends with the first token that closes a message of its name. -/
def EndsItself (tokens : List Token) : Prop :=
  ∃ opening body closing, tokens = enclose opening body closing ∧ Delimited opening body closing

/-- Whether a header ends with the first token that closes a composite of the name of its first
token, but for tokens behind that none of which opens a message. -/
def HeaderEnds (tokens : List Token) : Prop :=
  ∃ opening inner closing behind, tokens = enclose opening inner closing ++ behind ∧
    Token.isNamed .endComposite opening.name closing = true ∧
    (∀ token ∈ inner, Token.isNamed .endComposite opening.name token = false) ∧
    ∀ token ∈ behind, token.signal ≠ .beginMessage

theorem HeaderShaped.headerEnds {tokens : List Token} (shaped : HeaderShaped tokens) :
    HeaderEnds tokens := by
  obtain ⟨opening, inner, closing, rfl, _, closes, named, _, notInside⟩ := shaped
  refine ⟨opening, inner, closing, [], (List.append_nil _).symm, ?_, notInside,
    List.forall_mem_nil _⟩
  simp [Token.isNamed, closes, named]

theorem Registry.outline_insert (messages : Registry Int64 (List Token)) (number : Int64)
    (tokens : List Token) :
    (messages.insert number tokens).outline = messages.outline.insert number tokens.length := by
  obtain ⟨entries⟩ := messages
  refine congrArg Registry.mk ?_
  change (insertEntry number tokens entries).map _ =
    insertEntry number tokens.length (entries.map _)
  induction entries with
  | nil => rfl
  | cons entry rest ih =>
      by_cases same : entry.1 = number
      · simp [insertEntry, same]
      · simp [insertEntry, same, ih]

theorem Registry.keys_outline (messages : Registry Int64 (List Token)) :
    messages.outline.entries.map (·.1) = messages.entries.map (·.1) := by
  rw [Registry.outline, List.map_map]
  rfl

/-- A message that is accepted is put under its number with the tokens that are left of it. -/
theorem SchemaDraft.addMessage_reduces {draft extended : SchemaDraft} {number : Int64}
    {tokens : List Token} (accepted : draft.addMessage number tokens = .ok extended) :
    ∃ reduced, reduceConstants 0 tokens = .ok reduced ∧
      extended.messages.outline = draft.messages.outline.insert number reduced.length := by
  obtain ⟨_, reduced, measured, _, _, _, isReduced, isMeasured, _, rfl⟩ :=
    SchemaDraft.addMessage_steps accepted
  have sameLength : measured.length = reduced.length := by
    simpa using congrArg List.length (unspanned_withSpans isMeasured)
  exact ⟨reduced, isReduced, by rw [Registry.outline_insert, sameLength]⟩

/-- Tokens in front of all messages are passed over. -/
theorem addStoredMessages_skip {draft last : SchemaDraft} {front rest : List Token}
    (noMessage : ∀ token ∈ front, token.signal ≠ .beginMessage)
    (added : addStoredMessages draft (front ++ rest) = .ok last) :
    addStoredMessages draft rest = .ok last := by
  have skipped : (front ++ rest).dropWhile (·.signal ≠ .beginMessage) =
      rest.dropWhile (·.signal ≠ .beginMessage) :=
    List.dropWhile_append_of_pos fun token member => decide_eq_true (noMessage token member)
  rw [addStoredMessages] at added ⊢
  split
  · rename_i nothing
    rw [← skipped] at nothing
    split at added
    · exact added
    · rename_i isFront
      rw [nothing] at isFront
      cases isFront
  · rename_i opening body isFront
    rw [← skipped] at isFront
    split at added
    · rename_i nothing
      rw [isFront] at nothing
      cases nothing
    · rename_i first others isOther
      rw [isFront] at isOther
      cases isOther
      cases found : body.findIdx? (Token.isNamed .endMessage opening.name) with
      | none =>
          rw [found] at added
          cases added
      | some distance =>
          rw [found] at added
          exact added

/-! ### Echoes of messages -/

namespace Token.Echoes

theorem symm {token found : Token} (echoes : token.Echoes found) : found.Echoes token :=
  ⟨echoes.signal.symm, echoes.name.symm, echoes.id.symm, echoes.presence.symm⟩

end Token.Echoes

theorem echoes_symm {tokens found : List Token} (alike : List.Forall₂ Token.Echoes tokens found) :
    List.Forall₂ Token.Echoes found tokens :=
  alike.flip.imp fun _ _ echoes => echoes.symm

/-- An echo of a message that ends itself, in front of others, is one that ends itself. -/
theorem Delimited.echo {opening closing : Token} {body rest found : List Token}
    (delimited : Delimited opening body closing)
    (alike : List.Forall₂ Token.Echoes (enclose opening body closing ++ rest) found) :
    ∃ foundOpening foundBody foundClosing foundRest,
      found = enclose foundOpening foundBody foundClosing ++ foundRest ∧
        foundOpening.id = opening.id ∧ Delimited foundOpening foundBody foundClosing ∧
        List.Forall₂ Token.Echoes (enclose opening body closing)
          (enclose foundOpening foundBody foundClosing) ∧
        List.Forall₂ Token.Echoes rest foundRest := by
  obtain ⟨foundOpening, foundBody, foundClosing, foundRest, rfl, echoesOpening, alikeBody,
    echoesClosing, alikeRest⟩ := enclose_of_forall₂ alike
  have foundDelimited : Delimited foundOpening foundBody foundClosing := by
    refine ⟨echoesOpening.signal.trans delimited.opens,
      echoesClosing.signal.trans delimited.closes, ?_, ?_⟩
    · rw [echoesClosing.name, echoesOpening.name, delimited.named]
    · intro token member
      obtain ⟨source, isSource, echoes⟩ := exists_of_forall₂ alikeBody member
      rw [echoes.isNamed, echoesOpening.name]
      exact delimited.notInside source isSource
  exact ⟨foundOpening, foundBody, foundClosing, foundRest, rfl, echoesOpening.id, foundDelimited,
    .cons echoesOpening (List.rel_append alikeBody (.cons echoesClosing .nil)), alikeRest⟩

/-- Echoes of stored messages that end themselves are put under the numbers of their opening tokens
one after another. -/
theorem outline_of_addStoredMessages {messages : List (List Token)} :
    ∀ {draft last : SchemaDraft} {found : List Token},
      (∀ message ∈ messages, EndsItself message) →
        (∀ message ∈ messages, reduceConstants 0 message = .ok message) →
        List.Forall₂ Token.Echoes messages.flatten found →
        addStoredMessages draft found = .ok last →
        last.messages.outline = draft.messages.outline.extend
          ⟨messages.map fun message => (openingNumber message, message.length)⟩ := by
  induction messages with
  | nil =>
      intro draft last found _ _ alike added
      cases alike
      rw [addStoredMessages] at added
      cases added
      rfl
  | cons first others ih =>
      intro draft last found endsItself settled alike added
      rw [List.forall_mem_cons] at endsItself settled
      obtain ⟨⟨opening, body, closing, rfl, delimited⟩, endsOthers⟩ := endsItself
      rw [List.flatten_cons] at alike
      obtain ⟨foundOpening, foundBody, foundClosing, rest, rfl, sameId, foundDelimited, alikeFirst,
        alikeRest⟩ := delimited.echo alike
      rw [addStoredMessages_delimited foundDelimited] at added
      split at added
      · cases added
      · rename_i extended accepted
        obtain ⟨reduced, isReduced, isOutline⟩ := SchemaDraft.addMessage_reduces accepted
        rw [ih endsOthers settled.2 alikeRest added, isOutline,
          length_of_reduceConstants_echo settled.1 alikeFirst isReduced, ← alikeFirst.length_eq,
          sameId]
        rfl

/-! ### How many tokens there are -/

/-- How many tokens there are in all messages. -/
def Registry.total (outline : Registry Int64 Nat) : Nat :=
  (outline.entries.map (·.2)).sum

/-- Whether no message is empty. -/
def Registry.Positive (outline : Registry Int64 Nat) : Prop :=
  ∀ entry ∈ outline.entries, 0 < entry.2

namespace Registry

/-- Where another message is replaced, there are fewer tokens than before and in the new message. -/
theorem total_insert_of_mem {outline : Registry Int64 Nat} (positive : outline.Positive)
    {number : Int64} (present : number ∈ outline.entries.map (·.1)) (count : Nat) :
    (outline.insert number count).total < outline.total + count := by
  obtain ⟨entries⟩ := outline
  change ((insertEntry number count entries).map (·.2)).sum < (entries.map (·.2)).sum + count
  induction entries with
  | nil => cases present
  | cons entry rest ih =>
      have others : Positive ⟨rest⟩ := fun other member => positive other (.tail _ member)
      have first : 0 < entry.2 := positive entry (.head _)
      by_cases same : entry.1 = number
      · simp only [insertEntry, if_pos same, List.map_cons, List.sum_cons]
        omega
      · have later : number ∈ rest.map (·.1) := by
          rw [List.map_cons, List.mem_cons] at present
          exact present.resolve_left fun isFirst => same isFirst.symm
        have fewer := ih others later
        simp only [insertEntry, if_neg same, List.map_cons, List.sum_cons]
        omega

theorem total_insert_of_not_mem {outline : Registry Int64 Nat} {number : Int64}
    (absent : number ∉ outline.entries.map (·.1)) (count : Nat) :
    (outline.insert number count).total = outline.total + count := by
  rw [total, insert, insertEntry_of_not_mem absent, List.map_append, List.sum_append, total]
  rfl

theorem total_insert_le {outline : Registry Int64 Nat} (positive : outline.Positive)
    (number : Int64) (count : Nat) :
    (outline.insert number count).total ≤ outline.total + count := by
  by_cases present : number ∈ outline.entries.map (·.1)
  · exact Nat.le_of_lt (total_insert_of_mem positive present count)
  · exact Nat.le_of_eq (total_insert_of_not_mem present count)

theorem Positive.insert {outline : Registry Int64 Nat} (positive : outline.Positive)
    (number : Int64) {count : Nat} (some : 0 < count) : (outline.insert number count).Positive := by
  obtain ⟨entries⟩ := outline
  change ∀ entry ∈ insertEntry number count entries, 0 < entry.2
  change ∀ entry ∈ entries, 0 < entry.2 at positive
  induction entries with
  | nil =>
      rw [insertEntry, List.forall_mem_singleton]
      exact some
  | cons entry rest ih =>
      rw [List.forall_mem_cons] at positive
      rw [insertEntry]
      split
      · exact List.forall_mem_cons.mpr ⟨some, positive.2⟩
      · exact List.forall_mem_cons.mpr ⟨positive.1, ih positive.2⟩

end Registry

/-- What is left of a message that is accepted: no more tokens than there were, but some. -/
theorem SchemaDraft.addMessage_outline {draft extended : SchemaDraft} {number : Int64}
    {opening : Token} {behind : List Token}
    (accepted : draft.addMessage number (opening :: behind) = .ok extended) :
    ∃ count, 0 < count ∧ count ≤ (opening :: behind).length ∧
      extended.messages.outline = draft.messages.outline.insert number count := by
  obtain ⟨reduced, isReduced, isOutline⟩ := SchemaDraft.addMessage_reduces accepted
  refine ⟨reduced.length, List.length_pos_of_ne_nil ?_, reduceConstants_length_le isReduced,
    isOutline⟩
  rintro rfl
  cases reduceConstants_eq_nil isReduced

/-- Adding stored tokens makes no more of them than there are. -/
theorem addStoredMessages_total_le {draft last : SchemaDraft} {tokens : List Token}
    (positive : draft.messages.outline.Positive)
    (added : addStoredMessages draft tokens = .ok last) :
    last.messages.outline.total ≤ draft.messages.outline.total + tokens.length := by
  have shorter := (List.dropWhile_suffix (l := tokens) (·.signal ≠ .beginMessage)).length_le
  rcases addStoredMessages_ok added with ⟨_, rfl⟩ |
    ⟨opening, body, closing, rest, extended, isFront, _, accepted, addedRest⟩
  · exact Nat.le_add_right _ _
  rw [isFront, List.length_append, length_enclose] at shorter
  obtain ⟨count, some, atMost, isOutline⟩ := SchemaDraft.addMessage_outline accepted
  change count ≤ (enclose opening body closing).length at atMost
  rw [length_enclose] at atMost
  have grows := Registry.total_insert_le positive opening.id.toInt64 count
  have fewerTokens : rest.length < tokens.length := by omega
  have positiveExtended : extended.messages.outline.Positive := by
    rw [isOutline]
    exact positive.insert _ some
  have bound := addStoredMessages_total_le positiveExtended addedRest
  rw [isOutline] at bound
  omega
termination_by tokens.length

/-- If adding stored tokens makes as many of them as there are, the first message among them is at
the front and is put behind all others, with all of its tokens. -/
theorem addStoredMessages_ok_of_total {draft last : SchemaDraft} {tokens : List Token}
    (positive : draft.messages.outline.Positive)
    (added : addStoredMessages draft tokens = .ok last)
    (enough : draft.messages.outline.total + tokens.length ≤ last.messages.outline.total) :
    last = draft ∨
      ∃ opening body closing rest extended, tokens = enclose opening body closing ++ rest ∧
        Delimited opening body closing ∧ extended.messages.outline.Positive ∧
        extended.messages.outline.entries = draft.messages.outline.entries ++
          [(opening.id.toInt64, (enclose opening body closing).length)] ∧
        addStoredMessages extended rest = .ok last ∧
        extended.messages.outline.total + rest.length ≤ last.messages.outline.total := by
  have isSuffix := List.dropWhile_suffix (l := tokens) (·.signal ≠ .beginMessage)
  rcases addStoredMessages_ok added with ⟨_, rfl⟩ |
    ⟨opening, body, closing, rest, extended, isFront, delimited, accepted, addedRest⟩
  · exact .inl rfl
  rw [isFront] at isSuffix
  have shorter := isSuffix.length_le
  rw [List.length_append] at shorter
  obtain ⟨count, some, atMost, isOutline⟩ := SchemaDraft.addMessage_outline accepted
  change count ≤ (enclose opening body closing).length at atMost
  have positiveExtended : extended.messages.outline.Positive := by
    rw [isOutline]
    exact positive.insert _ some
  have bound := addStoredMessages_total_le positiveExtended addedRest
  have grows := Registry.total_insert_le positive opening.id.toInt64 count
  rw [← isOutline] at grows
  -- a message that is replaced, tokens in front and tokens that are dropped would all be missing
  have absent : opening.id.toInt64 ∉ draft.messages.outline.entries.map (·.1) := by
    intro present
    have fewer := Registry.total_insert_of_mem positive present count
    rw [← isOutline] at fewer
    omega
  have wholeMessage : count = (enclose opening body closing).length := by omega
  have allTokens : (enclose opening body closing ++ rest).length = tokens.length := by
    rw [List.length_append]
    omega
  refine .inr ⟨opening, body, closing, rest, extended, (isSuffix.eq_of_length allTokens).symm,
    delimited, positiveExtended, ?_, addedRest, by omega⟩
  rw [isOutline, Registry.insert, Registry.insertEntry_of_not_mem absent, wholeMessage]

/-- If adding stored tokens makes as many of them as there are, the messages that were there stay as
they are. -/
theorem addStoredMessages_keeps {draft last : SchemaDraft} {tokens : List Token}
    (positive : draft.messages.outline.Positive)
    (added : addStoredMessages draft tokens = .ok last)
    (enough : draft.messages.outline.total + tokens.length ≤ last.messages.outline.total) :
    draft.messages.outline.entries <+: last.messages.outline.entries := by
  rcases addStoredMessages_ok_of_total positive added enough with rfl |
    ⟨opening, body, closing, rest, extended, rfl, _, positiveExtended, isExtended, addedRest,
      enoughRest⟩
  · exact List.prefix_rfl
  have fewerTokens : rest.length < (enclose opening body closing ++ rest).length := by
    rw [List.length_append, length_enclose]
    omega
  have keeps := addStoredMessages_keeps positiveExtended addedRest enoughRest
  rw [isExtended] at keeps
  exact (List.prefix_append _ _).trans keeps
termination_by tokens.length

/-- If echoes of some messages are put under the numbers of the messages, with as many tokens, then
these are the numbers of their opening tokens, and each message ends itself. -/
theorem endsItself_of_addStoredMessages {messages : List (Int64 × List Token)} :
    ∀ {draft last : SchemaDraft} {found : List Token}, draft.messages.outline.Positive →
      List.Forall₂ Token.Echoes (messages.flatMap (·.2)) found →
        addStoredMessages draft found = .ok last →
        last.messages.outline.entries = draft.messages.outline.entries ++
          messages.map (fun message => (message.1, message.2.length)) →
        ∀ message ∈ messages, openingNumber message.2 = message.1 ∧ EndsItself message.2 := by
  induction messages with
  | nil => exact fun _ _ _ _ message member => absurd member List.not_mem_nil
  | cons first others ih =>
      intro draft last found positive alike added sameOutline
      have enough : draft.messages.outline.total + found.length ≤ last.messages.outline.total := by
        rw [Registry.total, Registry.total, sameOutline, ← alike.length_eq, List.length_flatMap,
          List.map_append, List.sum_append, List.map_map]
        exact Nat.le_refl _
      rcases addStoredMessages_ok_of_total positive added enough with rfl |
        ⟨opening, body, closing, rest, extended, rfl, delimited, positiveExtended, isExtended,
          addedRest, enoughRest⟩
      · simp at sameOutline
      obtain ⟨later, isLast⟩ := addStoredMessages_keeps positiveExtended addedRest enoughRest
      rw [isExtended, sameOutline, List.append_assoc, List.append_cancel_left_eq] at isLast
      obtain ⟨isFirst, rfl⟩ := List.cons.inj isLast
      obtain ⟨sameNumber, sameLength⟩ := Prod.mk.inj isFirst
      -- the message that was found has the tokens of the message that was stored
      rw [List.flatMap_cons] at alike
      obtain ⟨storedOpening, storedBody, storedClosing, storedRest, whole, sameId, storedDelimited,
        alikeFirst, alikeRest⟩ := delimited.echo (echoes_symm alike)
      obtain ⟨isStored, rfl⟩ := List.append_inj whole (sameLength.symm.trans alikeFirst.length_eq)
      rw [List.forall_mem_cons]
      refine ⟨⟨?_, _, _, _, isStored, storedDelimited⟩,
        ih positiveExtended (echoes_symm alikeRest) addedRest ?_⟩
      · rw [← sameNumber, ← sameId, isStored]
        rfl
      · rw [isExtended, sameOutline, List.append_assoc, sameNumber, sameLength]
        rfl

/-! ### The whole schema -/

/-- Behind the header that is split off are echoes of the messages, and in front of them nothing
that opens a message. -/
theorem splitHeader_echo {tokens messages found headerTokens rest : List Token}
    (headerEnds : HeaderEnds tokens)
    (alike : List.Forall₂ Token.Echoes (tokens ++ messages) found)
    (isSplit : splitHeader found = .ok (headerTokens, rest)) :
    ∃ front others, rest = front ++ others ∧ (∀ token ∈ front, token.signal ≠ .beginMessage) ∧
      List.Forall₂ Token.Echoes messages others := by
  obtain ⟨opening, inner, closing, behind, rfl, closes, notInside, noMessage⟩ := headerEnds
  rw [List.append_assoc] at alike
  obtain ⟨foundOpening, foundInner, foundClosing, _, rfl, echoesOpening, alikeInner, echoesClosing,
    alikeRest⟩ := enclose_of_forall₂ alike
  obtain ⟨front, others, alikeFront, alikeOthers, rfl⟩ := append_of_forall₂ alikeRest
  have opens : foundOpening.signal = .beginComposite := by
    by_contra other
    simp [splitHeader, enclose, other] at isSplit
  rw [splitHeader_enclose opens] at isSplit
  · cases isSplit
    refine ⟨front, others, rfl, fun token member => ?_, alikeOthers⟩
    obtain ⟨source, isSource, echoes⟩ := exists_of_forall₂ alikeFront member
    rw [echoes.signal]
    exact noMessage source isSource
  · rw [echoesClosing.isNamed, echoesOpening.name, closes]
  · intro token member
    obtain ⟨source, isSource, echoes⟩ := exists_of_forall₂ alikeInner member
    rw [echoes.isNamed, echoesOpening.name]
    exact notInside source isSource

/-- What a schema that is loaded was put together from: echoes of the messages that were stored. -/
theorem Schema.load_echo {schema again : Schema} {bytes : List UInt8} {options : SchemaOptions}
    (headerEnds : HeaderEnds schema.header.tokens) (stored : schema.store = .ok bytes)
    (loaded : Schema.load bytes options = .ok again) :
    ∃ (start last : SchemaDraft) (found : List Token),
      List.Forall₂ Token.Echoes (schema.messages.entries.flatMap (·.2)) found ∧
        start.messages = {} ∧ addStoredMessages start found = .ok last ∧
        again.messages = last.messages := by
  obtain ⟨frame, isFrame, withTokens⟩ := ok_of_bind stored
  obtain ⟨pieces, isPieces, isBytes⟩ := ok_of_bind withTokens
  cases isBytes
  obtain ⟨⟨⟨identity, tokens⟩, cursor⟩, isRead, loaded⟩ := ok_of_bind loaded
  have alike := StoredReader.contents_echo isFrame isPieces isRead
  obtain ⟨⟨headerTokens, rest⟩, isSplit, loaded⟩ := ok_of_bind loaded
  obtain ⟨last, isLast, isBuilt⟩ := ok_of_bind loaded
  obtain ⟨front, found, rfl, noMessage, alikeMessages⟩ := splitHeader_echo headerEnds alike isSplit
  refine ⟨_, last, found, alikeMessages, rfl, addStoredMessages_skip noMessage isLast, ?_⟩
  split at isBuilt
  · rename_i built becomes
    cases isBuilt
    obtain ⟨_, _, _, _, _, sameMessages⟩ := SchemaDraft.build_steps becomes
    exact sameMessages
  · cases isBuilt

/-- A schema that is loaded has the messages that were stored, under the same numbers in the same
order and each with as many tokens, just if each of them is under the number of its opening token
and ends itself.  If they merely end themselves, they are put under the numbers of their opening
tokens one after another. -/
theorem Schema.load_outline {policy : DuplicatePolicy} {draft : SchemaDraft}
    {schema again : Schema} {bytes : List UInt8} {options : SchemaOptions}
    (reachable : draft.Reachable policy) (built : draft.build = .ok schema)
    (headerEnds : HeaderEnds schema.header.tokens) (stored : schema.store = .ok bytes)
    (loaded : Schema.load bytes options = .ok again) :
    (again.messages.outline = schema.messages.outline ↔
      ∀ entry ∈ schema.messages.entries,
        openingNumber entry.2 = entry.1 ∧ EndsItself entry.2) ∧
      ((∀ entry ∈ schema.messages.entries, EndsItself entry.2) →
        again.messages.outline = Registry.extend {} ⟨schema.messages.entries.map fun entry =>
          (openingNumber entry.2, entry.2.length)⟩) := by
  obtain ⟨start, last, found, alike, nothing, added, isAgain⟩ :=
    Schema.load_echo headerEnds stored loaded
  obtain ⟨additions, history⟩ := reachable.history
  obtain ⟨_, _, _, _, _, sameMessages⟩ := SchemaDraft.build_steps built
  have distinct := history.distinct
  rw [← sameMessages] at distinct
  have settled : ∀ entry ∈ schema.messages.entries, reduceConstants 0 entry.2 = .ok entry.2 := by
    intro entry member
    rw [sameMessages] at member
    obtain ⟨_, _, _, _, _, _, isReduced, isMeasured⟩ := history.stored entry.1 entry.2
      ((Registry.get?_eq_some_iff history.distinct).mpr member)
    exact reduceConstants_again isReduced (unspanned_withSpans isMeasured) 0
  have nothingOutlined : start.messages.outline = {} := by
    rw [nothing]
    rfl
  have keyed : (∀ entry ∈ schema.messages.entries, EndsItself entry.2) →
      again.messages.outline = Registry.extend {} ⟨schema.messages.entries.map fun entry =>
        (openingNumber entry.2, entry.2.length)⟩ := by
    intro endsItself
    rw [List.flatMap_def] at alike
    have isOutline := outline_of_addStoredMessages (List.forall_mem_map.mpr endsItself)
      (List.forall_mem_map.mpr settled) alike added
    rw [isAgain, isOutline, nothingOutlined, List.map_map]
    rfl
  refine ⟨⟨fun same => ?_, fun each => ?_⟩, keyed⟩
  · have positive : start.messages.outline.Positive := by
      rw [nothingOutlined]
      exact fun entry member => absurd member List.not_mem_nil
    refine endsItself_of_addStoredMessages positive alike added ?_
    rw [← isAgain, same, nothingOutlined]
    rfl
  · have sameNumbers : (schema.messages.entries.map fun entry =>
        (openingNumber entry.2, entry.2.length)) = schema.messages.outline.entries :=
      List.map_congr_left fun entry member => by rw [(each entry member).1]
    have distinctOutline : ((Registry.entries {} : List (Int64 × Nat)).map (·.1) ++
        schema.messages.outline.entries.map (·.1)).Nodup := by
      rw [Registry.keys_outline]
      exact distinct
    rw [keyed fun entry member => (each entry member).2, sameNumbers,
      Registry.extend_of_distinct distinctOutline]
    rfl

/-! ### Schemas put together from given messages, and loaded again -/

/-- A schema that is put together from some messages, and what is loaded from its stored form. -/
def reloaded (draft : SchemaDraft) (messages : List (Int64 × List Token)) :
    Option (Schema × Schema) :=
  (draft.addMessages messages).toOption.bind fun extended =>
    extended.build.toOption.bind fun schema =>
      schema.store.toOption.bind fun bytes =>
        (Schema.load bytes extended.options).toOption.map fun again => (schema, again)

theorem reloaded_eq_some {draft : SchemaDraft} {messages : List (Int64 × List Token)}
    {schemas : Schema × Schema} (isReloaded : reloaded draft messages = some schemas) :
    ∃ extended bytes, draft.addMessages messages = .ok extended ∧
      extended.build = .ok schemas.1 ∧ schemas.1.store = .ok bytes ∧
      Schema.load bytes extended.options = .ok schemas.2 := by
  obtain ⟨extended, isExtended, isReloaded⟩ := Option.bind_eq_some_iff.mp isReloaded
  obtain ⟨schema, isSchema, isReloaded⟩ := Option.bind_eq_some_iff.mp isReloaded
  obtain ⟨bytes, isStored, isReloaded⟩ := Option.bind_eq_some_iff.mp isReloaded
  obtain ⟨again, isAgain, isReloaded⟩ := Option.map_eq_some_iff.mp isReloaded
  subst isReloaded
  exact ⟨extended, bytes, ok_of_toOption isExtended, ok_of_toOption isSchema,
    ok_of_toOption isStored, ok_of_toOption isAgain⟩

/-- A message without fields. -/
def emptyMessage (name : String) (id : Int32) : List Token :=
  FrontEnd.message name id 0 []

/-- What is stored of a message without fields. -/
def storedEmptyMessage (name : String) (id : Int32) : List Token :=
  enclose { signal := .beginMessage, name, id, storedSpan := 2 } []
    { signal := .endMessage, name, id, storedSpan := 2 }

/-- An order and an empty message, both added under the numbers that they open with. -/
theorem Schema.load_outline_side :
    ∃ (draft : SchemaDraft) (schema again : Schema) (bytes : List UInt8),
      draft.Reachable .lastWins ∧ draft.build = .ok schema ∧ HeaderEnds schema.header.tokens ∧
        schema.store = .ok bytes ∧ Schema.load bytes draft.options = .ok again ∧
        (∀ entry ∈ schema.messages.entries,
          openingNumber entry.2 = entry.1 ∧ EndsItself entry.2) ∧
        again.messages.outline = schema.messages.outline := by
  let sell := FrontEnd.typeValue .validValue .uint8 "SELL" (.uint 1)
  let entries : List (Int64 × List Token) :=
    [(1, storedSide keptSide), (-2, storedEmptyMessage "Ping" (-2))]
  have isReloaded : (reloaded (startedDraft .lastWins)
      [(1, sideMessage [sell]), (-2, emptyMessage "Ping" (-2))]).map
        (fun schemas => (schemas.1.header.tokens, schemas.1.messages.entries)) =
      some (storedHeader, entries) := by
    decide +kernel
  obtain ⟨⟨schema, again⟩, isReloaded, isStored⟩ := Option.map_eq_some_iff.mp isReloaded
  obtain ⟨isHeader, isEntries⟩ := Prod.mk.inj isStored
  obtain ⟨draft, bytes, added, built, stored, loaded⟩ := reloaded_eq_some isReloaded
  have started : (startedDraft .lastWins).Reachable .lastWins := .start _ _ _ rfl
  have reachable := started.addMessages added
  have headerEnds : HeaderEnds schema.header.tokens := by
    rw [isHeader]
    exact storedHeader_shaped.headerEnds
  have each : ∀ entry ∈ schema.messages.entries,
      openingNumber entry.2 = entry.1 ∧ EndsItself entry.2 := by
    rw [isEntries, List.forall_mem_cons, List.forall_mem_singleton]
    exact ⟨⟨rfl, _, _, _, rfl, rfl, rfl, rfl, by decide +kernel⟩,
      ⟨rfl, _, _, _, rfl, rfl, rfl, rfl, by decide⟩⟩
  exact ⟨draft, schema, again, bytes, reachable, built, headerEnds, stored, loaded, each,
    (Schema.load_outline reachable built headerEnds stored loaded).1.mpr each⟩

/-- Whether some schema whose messages have certain numbers and counts of tokens is stored, and
loaded with others. -/
def OutlineChanges (stored loaded : List (Int64 × Nat)) : Prop :=
  ∃ (draft : SchemaDraft) (schema again : Schema) (bytes : List UInt8),
    draft.Reachable .lastWins ∧ draft.build = .ok schema ∧ schema.store = .ok bytes ∧
      Schema.load bytes draft.options = .ok again ∧
      schema.messages.outline.entries = stored ∧ again.messages.outline.entries = loaded ∧
      stored ≠ loaded

theorem outlineChanges_of_reloaded {headerTokens : List Token}
    {messages : List (Int64 × List Token)} {stored loaded : List (Int64 × Nat)}
    (isReloaded : (reloaded { startedDraft .lastWins with headerTokens } messages).map
      (fun schemas => (schemas.1.messages.outline.entries, schemas.2.messages.outline.entries)) =
        some (stored, loaded)) (different : stored ≠ loaded) : OutlineChanges stored loaded := by
  obtain ⟨⟨schema, again⟩, isReloaded, isOutline⟩ := Option.map_eq_some_iff.mp isReloaded
  obtain ⟨isStored, isLoaded⟩ := Prod.mk.inj isOutline
  obtain ⟨draft, bytes, added, built, store, load⟩ := reloaded_eq_some isReloaded
  have started : ({ startedDraft .lastWins with headerTokens } : SchemaDraft).Reachable .lastWins :=
    .start _ _ _ rfl
  exact ⟨draft, schema, again, bytes, started.addMessages added, built, store, load, isStored,
    isLoaded, different⟩

/-- A message within which another message ends. -/
def halvedMessage : List Token :=
  [{ signal := .beginMessage, name := "Ping", id := 2 }, { signal := .endMessage, name := "Pong" }]

/-- The header, with an end of another name. -/
def renamedHeader : List Token :=
  FrontEnd.headerTokens.dropLast ++ [{ signal := .endComposite, name := "header" }]

/-- Messages are put under other numbers, replace others, end too early or too late, come out of the
header, or go into it. -/
theorem outline_changes :
    OutlineChanges [(7, 2)] [(2, 2)] ∧
      OutlineChanges [(1, 2), (2, 2)] [(2, 2)] ∧
      OutlineChanges [(2, 4)] [(2, 2)] ∧
      OutlineChanges [(2, 2), (3, 2)] [(2, 4)] ∧
      OutlineChanges [(2, 2)] [(9, 2), (2, 2)] ∧
      OutlineChanges [(2, 6)] [(2, 2)] := by
  let ping := emptyMessage "Ping" 2
  have rekeyed : OutlineChanges [(7, 2)] [(2, 2)] :=
    @outlineChanges_of_reloaded FrontEnd.headerTokens [(7, ping)] _ _ (by decide +kernel)
      (by decide)
  have replaced : OutlineChanges [(1, 2), (2, 2)] [(2, 2)] :=
    @outlineChanges_of_reloaded FrontEnd.headerTokens [(1, ping), (2, emptyMessage "Pong" 2)] _ _
      (by decide +kernel) (by decide)
  have endsEarly : OutlineChanges [(2, 4)] [(2, 2)] :=
    @outlineChanges_of_reloaded FrontEnd.headerTokens [(2, ping ++ ping)] _ _ (by decide +kernel)
      (by decide)
  have endsLate : OutlineChanges [(2, 2), (3, 2)] [(2, 4)] :=
    @outlineChanges_of_reloaded FrontEnd.headerTokens [(2, halvedMessage), (3, ping)] _ _
      (by decide +kernel) (by decide)
  have outOfHeader : OutlineChanges [(2, 2)] [(9, 2), (2, 2)] :=
    @outlineChanges_of_reloaded (FrontEnd.headerTokens ++ emptyMessage "Pong" 9) [(2, ping)] _ _
      (by decide +kernel) (by decide)
  have intoHeader : OutlineChanges [(2, 6)] [(2, 2)] :=
    @outlineChanges_of_reloaded renamedHeader
      [(2, halvedMessage ++ FrontEnd.composite "messageHeader" 0 0 [] ++ ping)] _ _
      (by decide +kernel) (by decide)
  exact ⟨rekeyed, replaced, endsEarly, endsLate, outOfHeader, intoHeader⟩

end WireSchema
