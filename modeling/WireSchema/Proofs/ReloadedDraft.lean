/-
Module: WireSchema.Proofs.ReloadedDraft
Purpose: The messages of a schema, one after another as they were stored, are split where each of
  them ends and put into a new draft in the same order (`SchemaDraft.Refilled.addAll`).  That their
  types are compatible among each other follows from how the schema came about: distinct messages
  came from distinct additions (`SchemaDraft.History.typesAgain`).
Main exports: SchemaDraft.Refilled, SchemaDraft.Refilled.addAll, SchemaDraft.History.typesAgain
-/
import WireSchema.Proofs.RelatedLists
import WireSchema.Proofs.ReloadedMessage
import WireSchema.Stored.Reader

namespace WireSchema

/-! ### One message -/

theorem MessageShaped.imp {shape weaker : List Token → Prop} {messageId : Int64}
    {tokens : List Token} (shaped : MessageShaped shape messageId tokens)
    (weakens : ∀ {tokens}, shape tokens → weaker tokens) :
    MessageShaped weaker messageId tokens := by
  obtain ⟨opening, body, closing, isEnclosed, opens, closes, named, numbered, inside⟩ := shaped
  exact ⟨opening, body, closing, isEnclosed, opens, closes, named, numbered, weakens inside⟩

theorem MessageShaped.map_reread {messageId : Int64} {tokens : List Token}
    (shaped : MessageShaped Nested messageId tokens) :
    MessageShaped Nested messageId (tokens.map Token.reread) := by
  obtain ⟨opening, body, closing, rfl, opens, closes, named, numbered, nested⟩ := shaped
  exact ⟨opening.reread, body.map Token.reread, closing.reread, map_reread_enclose _ _ _, opens,
    closes, named, numbered, nested.map_reread⟩

/-- No message ends within nested tokens. -/
theorem Nested.ne_endMessage {tokens : List Token} (nested : Nested tokens) :
    ∀ token ∈ tokens, token.signal ≠ .endMessage := by
  induction nested with
  | nil => simp
  | leaf isLeaf _ ih =>
      rw [List.forall_mem_cons]
      refine ⟨fun ends => ?_, ih⟩
      have closesNothing := isLeaf.2
      rw [ends] at closesNothing
      cases closesNothing
  | @construct component opening closing inner rest opens closes fits _ _ ihInside ihLater =>
      simp only [enclose, List.cons_append, List.append_assoc, List.nil_append,
        List.forall_mem_cons, List.forall_mem_append]
      refine ⟨fun ends => ?_, ihInside, fun ends => ?_, ihLater⟩
      · rw [ends] at opens
        cases opens
      · rw [ends] at closes
        cases closes
        exact fits.noMessage opens

/-- A message that ends with its last token: no token in front of that one ends a message of its
name. -/
structure Delimited (opening : Token) (body : List Token) (closing : Token) : Prop where
  opens : opening.signal = .beginMessage
  closes : closing.signal = .endMessage
  named : closing.name = opening.name
  notInside : ∀ token ∈ body, Token.isNamed .endMessage opening.name token = false

/-- A message that ends with its last token is split off at the front and added. -/
theorem addStoredMessages_delimited {opening closing : Token} {body : List Token}
    (delimited : Delimited opening body closing) (draft : SchemaDraft) (rest : List Token) :
    addStoredMessages draft (enclose opening body closing ++ rest) =
      match draft.addMessage opening.id.toInt64 (enclose opening body closing) with
      | .error problem => .error (.malformed problem)
      | .ok extended => addStoredMessages extended rest := by
  obtain ⟨opens, closes, named, notInside⟩ := delimited
  have regroup : enclose opening body closing ++ rest = opening :: (body ++ closing :: rest) := by
    simp [enclose]
  have front : (enclose opening body closing ++ rest).dropWhile (·.signal ≠ .beginMessage) =
      opening :: (body ++ closing :: rest) := by
    rw [regroup, List.dropWhile_cons_of_neg (by simp [opens])]
  have found := findIdx?_isNamed notInside (Token.isNamed_iff.mpr ⟨closes, named⟩) rest
  have taken : opening :: (body ++ closing :: rest).take (body.length + 1) =
      enclose opening body closing := by
    rw [List.take_length_add_append]
    rfl
  have dropped : (body ++ closing :: rest).drop (body.length + 1) = rest := by
    rw [List.drop_length_add_append]
    rfl
  rw [addStoredMessages]
  split
  · rename_i none
    rw [front] at none
    cases none
  · rename_i first behind isFront
    rw [front] at isFront
    cases isFront
    cases added : draft.addMessage opening.id.toInt64 (enclose opening body closing) with
    | error problem => simp only [found, taken, added]
    | ok extended => simp only [found, taken, dropped, added]

/-- What is added of stored tokens: nothing if none of them opens a message, and else the tokens
from the first one that does up to the one that closes it, before those behind. -/
theorem addStoredMessages_ok {draft last : SchemaDraft} {tokens : List Token}
    (added : addStoredMessages draft tokens = .ok last) :
    (tokens.dropWhile (·.signal ≠ .beginMessage) = [] ∧ last = draft) ∨
      ∃ opening body closing rest extended,
        tokens.dropWhile (·.signal ≠ .beginMessage) = enclose opening body closing ++ rest ∧
          Delimited opening body closing ∧
          draft.addMessage opening.id.toInt64 (enclose opening body closing) = .ok extended ∧
          addStoredMessages extended rest = .ok last := by
  rw [addStoredMessages] at added
  split at added
  · rename_i nothing
    cases added
    exact .inl ⟨nothing, rfl⟩
  rename_i opening behind isFront
  split at added
  · cases added
  rename_i distance isFound
  split at added
  · cases added
  rename_i extended accepted
  have opens : opening.signal = .beginMessage := by
    have stops :=
      List.head?_dropWhile_not (fun token : Token => token.signal ≠ .beginMessage) tokens
    rw [isFront] at stops
    simpa using stops
  obtain ⟨inside, isClosing, notInside⟩ := List.findIdx?_eq_some_iff_getElem.mp isFound
  -- the closing token is the last one of the message
  have isMessage : opening :: behind.take (distance + 1) =
      enclose opening (behind.take distance) behind[distance] := by
    rw [enclose, List.take_append_getElem inside]
  have whole : opening :: behind =
      enclose opening (behind.take distance) behind[distance] ++ behind.drop (distance + 1) := by
    rw [← isMessage, List.cons_append, List.take_append_drop]
  rw [Token.isNamed_iff] at isClosing
  rw [isMessage] at accepted
  refine .inr ⟨opening, _, _, _, extended, isFront.trans whole,
    ⟨opens, isClosing.1, isClosing.2, ?_⟩, accepted, added⟩
  intro token member
  obtain ⟨index, early, rfl⟩ := List.mem_take_iff_getElem.mp member
  have before : index < distance := lt_of_lt_of_le early (Nat.min_le_left _ _)
  simpa using notInside index before

/-- A message of nested tokens ends with its last token. -/
theorem MessageShaped.delimited {messageId : Int64} {tokens : List Token}
    (shaped : MessageShaped Nested messageId tokens) :
    ∃ opening body closing, tokens = enclose opening body closing ∧
      opening.id.toInt64 = messageId ∧ Delimited opening body closing := by
  obtain ⟨opening, body, closing, isEnclosed, opens, closes, named, numbered, nested⟩ := shaped
  refine ⟨opening, body, closing, isEnclosed, numbered, opens, closes, named, ?_⟩
  intro token member
  simp [Token.isNamed, nested.ne_endMessage token member]

/-- A message at the front is split off and added. -/
theorem addStoredMessages_message {draft extended : SchemaDraft} {messageId : Int64}
    {tokens : List Token} (shaped : MessageShaped Nested messageId tokens)
    (added : draft.addMessage messageId tokens = .ok extended) (rest : List Token) :
    addStoredMessages draft (tokens ++ rest) = addStoredMessages extended rest := by
  obtain ⟨opening, body, closing, rfl, rfl, delimited⟩ := shaped.delimited
  rw [addStoredMessages_delimited delimited, added]

/-- Messages that can be added in turn are added in turn where they are loaded. -/
theorem addStoredMessages_eq {messages : List (Int64 × List Token)} :
    ∀ {draft extended : SchemaDraft},
      (∀ message ∈ messages, MessageShaped Nested message.1 message.2) →
        draft.addMessages messages = .ok extended →
        addStoredMessages draft (messages.flatMap (·.2)) = .ok extended := by
  induction messages with
  | nil =>
      intro draft extended _ added
      cases added
      rw [List.flatMap_nil, addStoredMessages]
      rfl
  | cons first others ih =>
      intro draft extended shaped added
      rw [List.forall_mem_cons] at shaped
      rw [SchemaDraft.addMessages, List.foldlM_cons] at added
      obtain ⟨between, accepted, addedOthers⟩ := ok_of_bind added
      rw [List.flatMap_cons, addStoredMessages_message shaped.1 accepted]
      exact ih shaped.2 addedOthers

/-- Adding a message to a draft in which nothing conflicts with it. -/
theorem AddedAgain.addMessage {draft : SchemaDraft} {messageId : Int64} {stored : List Token}
    {types seen : List (String × List Token)} (again : AddedAgain messageId stored types)
    (known : SchemaDraft.Known draft.types.get? seen)
    (compatible : draft.options.duplicateTypes = .reject →
      (∀ old ∈ seen, ∀ type ∈ types, Compatible old type) ∧ types.Pairwise Compatible) :
    ∃ next, draft.addMessage messageId (stored.map Token.reread) =
        .ok { draft with
          types := next
          messages := draft.messages.insert messageId (stored.map Token.canonical) } ∧
      SchemaDraft.Known next.get? (seen ++ types) := by
  obtain ⟨checked, held, irreducible, isMeasured⟩ := again
  have storedAs : (Addition.mk messageId (stored.map Token.reread) types).StoredAs
      (stored.map Token.canonical) := ⟨checked, held, _, irreducible, isMeasured⟩
  obtain ⟨next, settled, knownNext⟩ := known.settleTypes compatible
  refine ⟨next, ?_, knownNext⟩
  rw [storedAs.addMessage draft, settled]
  rfl

/-! ### All messages -/

/-- A draft that some stored messages were added to again, and the types that were seen. -/
structure SchemaDraft.Refilled (start draft : SchemaDraft) (entries : List (Int64 × List Token))
    (seen : List (String × List Token)) : Prop where
  options : draft.options = start.options
  identity : draft.identity = start.identity
  headerTokens : draft.headerTokens = start.headerTokens
  messages : draft.messages.entries =
    entries.map fun entry => (entry.1, entry.2.map Token.canonical)
  known : SchemaDraft.Known draft.types.get? seen

/-- One more message. -/
theorem SchemaDraft.Refilled.add {start draft : SchemaDraft} {done : List (Int64 × List Token)}
    {entry : Int64 × List Token} {seen types : List (String × List Token)}
    (refilled : start.Refilled draft done seen) (again : AddedAgain entry.1 entry.2 types)
    (absent : entry.1 ∉ done.map (·.1))
    (compatible : start.options.duplicateTypes = .reject →
      (∀ old ∈ seen, ∀ type ∈ types, Compatible old type) ∧ types.Pairwise Compatible) :
    ∃ extended, draft.addMessage entry.1 (entry.2.map Token.reread) = .ok extended ∧
      start.Refilled extended (done ++ [entry]) (seen ++ types) := by
  obtain ⟨options, identity, headerTokens, messages, known⟩ := refilled
  rw [← options] at compatible
  obtain ⟨next, added, knownNext⟩ := again.addMessage known compatible
  refine ⟨_, added, options, identity, headerTokens, ?_, knownNext⟩
  have notThere : entry.1 ∉ draft.messages.entries.map (·.1) := by
    rw [messages, List.map_map]
    exact absent
  change Registry.insertEntry _ _ draft.messages.entries = _
  rw [Registry.insertEntry_of_not_mem notThere, messages, List.map_append]
  rfl

/-- All messages, one after another. -/
theorem SchemaDraft.Refilled.addAll {start : SchemaDraft}
    {types : Int64 × List Token → List (String × List Token)}
    {entries : List (Int64 × List Token)} :
    ∀ {draft : SchemaDraft} {done : List (Int64 × List Token)}
      {seen : List (String × List Token)}, start.Refilled draft done seen →
      (∀ entry ∈ entries, MessageShaped Nested entry.1 (entry.2.map Token.reread)) →
      (∀ entry ∈ entries, AddedAgain entry.1 entry.2 (types entry)) →
      ((done ++ entries).map (·.1)).Nodup →
      (start.options.duplicateTypes = .reject →
        (seen ++ entries.flatMap types).Pairwise Compatible) →
      ∃ last,
        addStoredMessages draft (entries.flatMap fun entry => entry.2.map Token.reread) =
            .ok last ∧
          start.Refilled last (done ++ entries) (seen ++ entries.flatMap types) := by
  induction entries with
  | nil =>
      intro draft done seen refilled _ _ _ _
      refine ⟨draft, ?_, by simpa using refilled⟩
      rw [List.flatMap_nil, addStoredMessages]
      rfl
  | cons entry rest ih =>
      intro draft done seen refilled shaped again distinct compatible
      rw [List.forall_mem_cons] at shaped again
      have regroup : done ++ entry :: rest = done ++ [entry] ++ rest := by simp
      have regroupTypes : seen ++ (entry :: rest).flatMap types =
          seen ++ types entry ++ rest.flatMap types := by simp
      rw [regroup] at distinct ⊢
      rw [regroupTypes] at compatible ⊢
      have absent : entry.1 ∉ done.map (·.1) := by
        intro member
        rw [List.append_assoc, List.map_append] at distinct
        exact List.disjoint_of_nodup_append distinct member
          (List.mem_map_of_mem (List.mem_append_left rest List.mem_cons_self))
      have compatibleNow : start.options.duplicateTypes = .reject →
          (∀ old ∈ seen, ∀ type ∈ types entry, Compatible old type) ∧
            (types entry).Pairwise Compatible := by
        intro rejects
        obtain ⟨soFar, _⟩ := List.pairwise_append.mp (compatible rejects)
        obtain ⟨_, pairwise, withOld⟩ := List.pairwise_append.mp soFar
        exact ⟨withOld, pairwise⟩
      obtain ⟨extended, added, refilledOne⟩ := refilled.add again.1 absent compatibleNow
      obtain ⟨last, addedRest, refilledAll⟩ :=
        ih refilledOne shaped.2 again.2 distinct compatible
      refine ⟨last, ?_, refilledAll⟩
      rw [List.flatMap_cons, addStoredMessages_message shaped.1 added]
      exact addedRest

/-! ### The types of all messages -/

/-- The types of the messages of a draft are compatible again after they were read back. -/
theorem SchemaDraft.History.typesAgain {policy : DuplicatePolicy} {draft : SchemaDraft}
    {additions : List Addition} (history : draft.History policy additions)
    (shaped : ∀ entry ∈ draft.messages.entries, MessageShaped (Shaped false) entry.1 entry.2)
    (settled : ∀ entry ∈ draft.messages.entries, MessageSettled entry.2) :
    ∃ types : Int64 × List Token → List (String × List Token),
      (∀ entry ∈ draft.messages.entries, AddedAgain entry.1 entry.2 (types entry)) ∧
        (policy = .reject → (draft.messages.entries.flatMap types).Pairwise Compatible) := by
  have each : ∀ entry ∈ draft.messages.entries, ∃ addition types,
      addition ∈ additions ∧ addition.messageId = entry.1 ∧
        AddedAgain entry.1 entry.2 types ∧ List.Forall₂ RecapturedStored addition.types types := by
    intro entry member
    obtain ⟨addition, isAddition, sameId, storedAs⟩ := history.stored entry.1 entry.2
      ((Registry.get?_eq_some_iff history.distinct).mpr member)
    have numbered := shaped entry member
    rw [← sameId] at numbered
    obtain ⟨types, again, recaptured⟩ := storedAs.again numbered (settled entry member)
    rw [sameId] at again
    exact ⟨addition, types, isAddition, sameId, again, recaptured⟩
  choose! addition types isAddition sameId again recaptured using each
  refine ⟨types, again, fun rejects => ?_⟩
  obtain ⟨within, between⟩ := List.pairwise_flatMap.mp (history.compatible rejects)
  have across : ∀ first ∈ additions, ∀ second ∈ additions, first ≠ second →
      ∀ type ∈ first.types, ∀ other ∈ second.types, Compatible type other := by
    have symmetric : Std.Symm fun first second : Addition =>
        ∀ type ∈ first.types, ∀ other ∈ second.types, Compatible type other :=
      ⟨fun _ _ compatible type isType other isOther =>
        (compatible other isOther type isType).symm⟩
    exact fun first isFirst second isSecond different =>
      between.forall isFirst isSecond different
  have distinct : draft.messages.entries.Pairwise (fun one other => one.1 ≠ other.1) :=
    List.pairwise_map.mp history.distinct
  rw [List.pairwise_flatMap]
  refine ⟨fun entry member => ?_, distinct.imp_of_mem fun {one other} isOne isOther different => ?_⟩
  · exact pairwise_of_forall₂ (recaptured entry member) (within _ (isAddition entry member))
      (Compatible.recaptured keepsLayout_stored)
  · intro type isType otherType isOtherType
    obtain ⟨source, isSource, sameType⟩ := exists_of_forall₂ (recaptured one isOne) isType
    obtain ⟨otherSource, isOtherSource, sameOther⟩ :=
      exists_of_forall₂ (recaptured other isOther) isOtherType
    have additionsDiffer : addition one ≠ addition other := by
      intro same
      rw [← sameId one isOne, ← sameId other isOther, same] at different
      exact different rfl
    exact (across _ (isAddition one isOne) _ (isAddition other isOther) additionsDiffer source
      isSource otherSource isOtherSource).recaptured keepsLayout_stored sameType sameOther

end WireSchema
