/-
Module: WireSchema.Proofs.StoredMessage
Purpose: What a draft keeps of the flat form of a message is the flat form of a tree again: the tree
  with its constants reduced and its spans measured.  So reading along the stored tokens is reading
  along that tree, for every buffer and for every position, version and length of the root block
  (`decode_addMessage`).
Main exports: orderMessage, decode_addMessage
-/
import WireSchema.FrontEnd.Constructs
import WireSchema.Proofs.Outcomes
import WireSchema.Proofs.ReducedTree
import WireSchema.Proofs.TreeDecoding
import WireSchema.Schema.Draft

namespace WireSchema

/-!
A span has 32 bits.  The tokens of a message are therefore assumed to be fewer than `spanLimit`.
-/

/-- Everything that adding a message does. -/
theorem SchemaDraft.addMessage_steps {draft extended : SchemaDraft} {messageId : Int64}
    {tokens : List Token} (accepted : draft.addMessage messageId tokens = .ok extended) :
    ∃ captured reduced measured found,
      checkMessage messageId tokens = .ok () ∧ typesOf tokens = .ok captured ∧
        reduceConstants 0 tokens = .ok reduced ∧ withSpans reduced = .ok measured ∧
        captured.foldlM draft.registerType {} = .ok found ∧
        extended = { draft with
          types := draft.types.extend found
          messages := draft.messages.insert messageId measured } := by
  obtain ⟨_, checked, accepted⟩ := ok_of_bind accepted
  obtain ⟨captured, isCaptured, accepted⟩ := ok_of_bind accepted
  obtain ⟨reduced, isReduced, accepted⟩ := ok_of_bind accepted
  obtain ⟨measured, isMeasured, accepted⟩ := ok_of_bind accepted
  obtain ⟨found, isFound, accepted⟩ := ok_of_bind accepted
  cases accepted
  exact ⟨captured, reduced, measured, found, checked, isCaptured, isReduced, isMeasured, isFound,
    rfl⟩

/-- What a draft becomes. -/
theorem SchemaDraft.build_steps {draft : SchemaDraft} {schema : Schema}
    (built : draft.build = .ok schema) :
    ∃ measured, withSpans draft.headerTokens = .ok measured ∧
      HeaderStructure.ofTokens measured = .ok schema.header ∧
      schema.identity = draft.identity ∧
      schema.namespaces = draft.identity.namespaces draft.options.collapseNamespaces ∧
      schema.messages = draft.messages := by
  obtain ⟨measured, isMeasured, built⟩ := ok_of_bind built
  obtain ⟨header, isHeader, built⟩ := ok_of_bind built
  cases built
  exact ⟨measured, isMeasured, isHeader, rfl, rfl, rfl⟩

theorem SchemaDraft.types_of_build {draft : SchemaDraft} {schema : Schema}
    (built : draft.build = .ok schema) : schema.types = draft.types := by
  obtain ⟨measured, _, built⟩ := ok_of_bind built
  obtain ⟨header, _, built⟩ := ok_of_bind built
  cases built
  rfl

/-- The reduction of constants adds no token. -/
theorem reduceConstants_length_le {index : Nat} {tokens reduced : List Token}
    (accepted : reduceConstants index tokens = .ok reduced) :
    reduced.length ≤ tokens.length := by
  fun_induction reduceConstants index tokens generalizing reduced with
  | case1 =>
      cases accepted
      exact Nat.le_refl _
  | case2 =>
      cases accepted
      exact Nat.le_refl _
  | case3 => cases accepted
  | case4 => cases accepted
  | case5 index token opening body closing after ending values reference kept named wraps =>
      rename_i ih
      obtain ⟨later, acceptedLater, accepted⟩ := ok_of_bind accepted
      cases accepted
      have shorter := ih acceptedLater
      have nonempty : 0 < values.length :=
        List.length_pos_of_mem (List.mem_of_find?_eq_some named)
      have parts : values.length + (after.length + 1) = body.length := by
        rw [← List.length_cons, ← ending, ← List.length_append, List.takeWhile_append_dropWhile]
      simp only [List.length_cons]
      omega
  | case6 index token rest _ ih =>
      obtain ⟨later, acceptedLater, accepted⟩ := ok_of_bind accepted
      cases accepted
      exact Nat.succ_le_succ (ih acceptedLater)

/-- What a draft stores for a message that it accepts. -/
theorem SchemaDraft.addMessage_tokens {draft extended : SchemaDraft} {messageId : Int64}
    {message : MessageTree} (accepted : draft.addMessage messageId message.tokens = .ok extended) :
    (∀ field ∈ message.body.allFields, field.Resolved) ∧
      extended.messages.get? messageId = some message.reduced.measured.tokens := by
  obtain ⟨captured, reduced, measured, found, _, _, isReduced, isMeasured, _, rfl⟩ :=
    SchemaDraft.addMessage_steps accepted
  obtain ⟨resolved, rfl⟩ := MessageTree.reduceConstants_tokens isReduced
  rw [MessageTree.withSpans_tokens] at isMeasured
  cases isMeasured
  exact ⟨resolved, draft.messages.get?_insert_self messageId _⟩

/-- The stored body of a message can be counted if the message can. -/
theorem SchemaDraft.length_stored_lt {draft extended : SchemaDraft} {messageId : Int64}
    {message : MessageTree} (accepted : draft.addMessage messageId message.tokens = .ok extended)
    (countable : message.tokens.length < spanLimit) :
    message.reduced.measured.body.tokens.length < spanLimit := by
  obtain ⟨_, reduced, _, _, _, _, isReduced, _⟩ := SchemaDraft.addMessage_steps accepted
  have shorter := reduceConstants_length_le isReduced
  obtain ⟨_, rfl⟩ := MessageTree.reduceConstants_tokens isReduced
  have same : message.reduced.measured.body.tokens.length = message.reduced.body.tokens.length :=
    message.reduced.body.measuresTo.length_eq
  rw [MessageTree.tokens, length_enclose] at shorter
  omega

/-- The spans of a message that a draft accepts are right if the tokens can be counted. -/
theorem SchemaDraft.spanned_of_addMessage {draft extended : SchemaDraft} {messageId : Int64}
    {message : MessageTree} (accepted : draft.addMessage messageId message.tokens = .ok extended)
    (countable : message.tokens.length < spanLimit) :
    message.reduced.measured.body.Spanned := by
  have small := SchemaDraft.length_stored_lt accepted countable
  apply BlockTree.measured_spanned
  rwa [← message.reduced.body.measuresTo.length_eq]

/-- Reading a message along the tokens that a draft has stored for it is reading along its tree,
for every buffer and wherever the root block starts: the same events, and the same end or the same
fault. -/
theorem decode_addMessage {draft extended : SchemaDraft} {messageId : Int64}
    {message : MessageTree} (accepted : draft.addMessage messageId message.tokens = .ok extended)
    (countable : message.tokens.length < spanLimit) :
    ∃ stored, extended.messages.get? messageId = some stored ∧
      stored = message.reduced.measured.tokens ∧
      ∀ (buffer : Buffer) (offset : Nat) (actingVersion : Int32) (blockLength : Nat),
        decode buffer offset actingVersion blockLength stored =
          message.reduced.measured.walk ⟨buffer, actingVersion⟩ offset blockLength := by
  have stored := (SchemaDraft.addMessage_tokens accepted).2
  have spanned := SchemaDraft.spanned_of_addMessage accepted countable
  exact ⟨_, stored, rfl, decode_tokens spanned⟩

/-- The side of an order, an enum of two values. -/
def sideType : EnumTree :=
  ⟨⟨{ signal := .beginEnum, name := "Side", offset := 4, encodedLength := 1,
      encoding := .ofType .uint8 }, rfl⟩,
    [⟨FrontEnd.typeValue .validValue .uint8 "BUY" (.uint 0), rfl⟩,
      ⟨FrontEnd.typeValue .validValue .uint8 "SELL" (.uint 1), rfl⟩],
    ⟨{ signal := .endEnum, name := "Side" }, rfl⟩⟩

/-- Two numbers of two bytes at a name, as in the dimensions of a group. -/
def twoNumbers (name first second : String) : EncodingPair :=
  ⟨⟨{ signal := .beginComposite, name, encodedLength := 4 }, rfl⟩,
    ⟨FrontEnd.encoding first .uint16 0, rfl⟩, ⟨FrontEnd.encoding second .uint16 2, rfl⟩,
    ⟨{ signal := .endComposite, name, encodedLength := 4 }, rfl⟩⟩

/-- An order: a composite with an enum inside, a field that is fixed to one side, and a group of
legs with a note each.  The fixed side and the notes came in with version one. -/
def orderMessage : MessageTree :=
  let price : TypeTree :=
    .composite ⟨{ signal := .beginComposite, name := "Price" }, rfl⟩
      [.encoding ⟨FrontEnd.encoding "mantissa" .uint32 0, by decide⟩, .enumeration sideType]
      ⟨{ signal := .endComposite, name := "Price" }, rfl⟩
  let fixedSide : Token :=
    { signal := .beginField, name := "fixedSide", version := 1,
      encoding := { presence := .constant, constValue := some (.bytes [83, 69, 76, 76]) } }
  let leg : BlockTree :=
    .block [] [] [⟨⟨{ signal := .beginVarData, name := "note", version := 1 }, rfl⟩,
      twoNumbers "text" "length" "varData", ⟨{ signal := .endVarData, name := "note" }, rfl⟩⟩]
  ⟨⟨{ signal := .beginMessage, name := "Order" }, rfl⟩,
    .block
      [⟨⟨{ signal := .beginField, name := "price" }, rfl⟩, price,
          ⟨{ signal := .endField, name := "price" }, rfl⟩⟩,
        ⟨⟨fixedSide, rfl⟩, .enumeration sideType,
          ⟨{ signal := .endField, name := "fixedSide" }, rfl⟩⟩]
      [.group ⟨{ signal := .beginGroup, name := "legs" }, rfl⟩
        (twoNumbers "groupSizeEncoding" "blockLength" "numInGroup") leg
        ⟨{ signal := .endGroup, name := "legs" }, rfl⟩]
      [],
    ⟨{ signal := .endMessage, name := "Order" }, rfl⟩⟩

/-- A draft without messages. -/
def emptyDraft : SchemaDraft :=
  { identity := { packageName := "orders" }, headerTokens := FrontEnd.headerTokens }

/-- What is stored for a message in a draft without other messages. -/
def storedAlone (tokens : List Token) : Option (List Token) :=
  (emptyDraft.addMessage 1 tokens).toOption.bind (·.messages.get? 1)

theorem orderMessage_accepted :
    ∃ extended, emptyDraft.addMessage 1 orderMessage.tokens = .ok extended :=
  exists_ok_of_isSome (by decide +kernel)

/-- The order, read along what an empty draft stores of it. -/
theorem decode_addMessage_order :
    ∃ extended, emptyDraft.addMessage 1 orderMessage.tokens = .ok extended ∧
      orderMessage.tokens.length < spanLimit ∧
      ∃ stored, extended.messages.get? 1 = some stored ∧
        stored = orderMessage.reduced.measured.tokens ∧
        ∀ (buffer : Buffer) (offset : Nat) (actingVersion : Int32) (blockLength : Nat),
          decode buffer offset actingVersion blockLength stored =
            orderMessage.reduced.measured.walk ⟨buffer, actingVersion⟩ offset blockLength := by
  obtain ⟨extended, accepted⟩ := orderMessage_accepted
  have countable : orderMessage.tokens.length < spanLimit := by decide
  exact ⟨extended, accepted, countable, decode_addMessage accepted countable⟩

end WireSchema
