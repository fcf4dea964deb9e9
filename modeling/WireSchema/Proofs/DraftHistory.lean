/-
Module: WireSchema.Proofs.DraftHistory
Purpose: A draft is reachable if it starts without messages and goes through changes of what it says
  about itself and additions of messages, while the choice for types that are defined twice stays
  the same.  Every message of a reachable draft was accepted by one of its additions, and where no
  conflict is allowed the types of all additions are compatible (`SchemaDraft.Reachable.history`).
  That includes the types of messages that others have taken the place of since.
Main exports: SchemaDraft.Reachable, Addition, SchemaDraft.History, SchemaDraft.Reachable.history
-/
import WireSchema.Proofs.Registration

namespace WireSchema

/-- The drafts that come about under one choice for types that are defined twice. -/
inductive SchemaDraft.Reachable (policy : DuplicatePolicy) : SchemaDraft → Prop where
  | start (options : SchemaOptions) (identity : SchemaIdentity) (headerTokens : List Token)
      (chosen : options.duplicateTypes = policy) :
      Reachable policy { options, identity, headerTokens }
  | configure {draft : SchemaDraft} (reachable : Reachable policy draft) (options : SchemaOptions)
      (identity : SchemaIdentity) (chosen : options.duplicateTypes = policy) :
      Reachable policy { draft with options, identity }
  | add {draft extended : SchemaDraft} {messageId : Int64} {tokens : List Token}
      (reachable : Reachable policy draft)
      (accepted : draft.addMessage messageId tokens = .ok extended) : Reachable policy extended

/-- A message that was added, with the types that it holds. -/
structure Addition where
  messageId : Int64
  tokens : List Token
  types : List (String × List Token)
deriving Inhabited

/-- What was accepted with a message, and what was stored for it. -/
structure Addition.StoredAs (addition : Addition) (stored : List Token) : Prop where
  checked : checkMessage addition.messageId addition.tokens = .ok ()
  held : HoldsTypes addition.tokens addition.types
  reduced : ∃ reduced,
    reduceConstants 0 addition.tokens = .ok reduced ∧ withSpans reduced = .ok stored

/-- Adding a message that passes every check settles its types, and stores it if they have no
conflict. -/
theorem Addition.StoredAs.addMessage {addition : Addition} {stored : List Token}
    (storedAs : addition.StoredAs stored) (draft : SchemaDraft) :
    draft.addMessage addition.messageId addition.tokens =
      (settleTypes draft.options.duplicateTypes draft.types addition.types).map fun types =>
        { draft with types, messages := draft.messages.insert addition.messageId stored } := by
  obtain ⟨checked, ⟨captured, isCaptured, measured⟩, reduced, isReduced, isMeasured⟩ := storedAs
  have noneFound : ({} : Registry String (List Token)).Distinct := List.nodup_nil
  have settles := registerTypes_eq draft measured noneFound
  change _ = settleTypes draft.options.duplicateTypes draft.types addition.types at settles
  rw [SchemaDraft.addMessage, bind_of_ok checked, bind_of_ok isCaptured, bind_of_ok isReduced,
    bind_of_ok isMeasured, ← settles]
  cases captured.foldlM draft.registerType {} <;> rfl

/-- What was accepted passes every check, and its types were settled. -/
theorem SchemaDraft.addMessage_settles {draft extended : SchemaDraft} {messageId : Int64}
    {tokens : List Token} (accepted : draft.addMessage messageId tokens = .ok extended) :
    ∃ types stored next, (Addition.mk messageId tokens types).StoredAs stored ∧
      settleTypes draft.options.duplicateTypes draft.types types = .ok next ∧
      extended =
        { draft with types := next, messages := draft.messages.insert messageId stored } := by
  obtain ⟨captured, reduced, stored, found, checked, isCaptured, isReduced, isStored, registered,
    _⟩ := SchemaDraft.addMessage_steps accepted
  obtain ⟨types, held⟩ := measured_of_registerType registered
  have storedAs : (Addition.mk messageId tokens types).StoredAs stored :=
    ⟨checked, ⟨captured, isCaptured, held⟩, reduced, isReduced, isStored⟩
  have settles := storedAs.addMessage draft
  rw [accepted] at settles
  cases settled : settleTypes draft.options.duplicateTypes draft.types types with
  | error problem =>
      rw [settled] at settles
      cases settles
  | ok next =>
      rw [settled] at settles
      exact ⟨types, stored, next, storedAs, settled, Except.ok.inj settles⟩

/-- The additions that a draft came about by. -/
structure SchemaDraft.History (policy : DuplicatePolicy) (draft : SchemaDraft)
    (additions : List Addition) : Prop where
  chosen : draft.options.duplicateTypes = policy
  distinct : draft.messages.Distinct
  stored : ∀ messageId tokens, draft.messages.get? messageId = some tokens →
    ∃ addition ∈ additions, addition.messageId = messageId ∧ addition.StoredAs tokens
  compatible : policy = .reject → (additions.flatMap (·.types)).Pairwise Compatible
  covers : policy = .reject → SchemaDraft.Covers draft.types.get? (additions.flatMap (·.types))

/-- What one more message does to the history of a draft. -/
theorem SchemaDraft.History.add {policy : DuplicatePolicy} {draft extended : SchemaDraft}
    {additions : List Addition} {messageId : Int64} {tokens : List Token}
    (history : draft.History policy additions)
    (accepted : draft.addMessage messageId tokens = .ok extended) :
    ∃ addition, extended.History policy (additions ++ [addition]) := by
  obtain ⟨types, stored, next, storedAs, settled, rfl⟩ := SchemaDraft.addMessage_settles accepted
  rw [history.chosen] at settled
  have settledTypes : policy = .reject →
      SchemaDraft.Covers next.get? (additions.flatMap (·.types) ++ types) ∧
        (∀ old ∈ additions.flatMap (·.types), ∀ type ∈ types, Compatible old type) ∧
        types.Pairwise Compatible := by
    rintro rfl
    exact (history.covers rfl).settleTypes settled
  have allTypes : (additions ++ [Addition.mk messageId tokens types]).flatMap (·.types) =
      additions.flatMap (·.types) ++ types := by
    simp
  refine ⟨⟨messageId, tokens, types⟩, history.chosen, history.distinct.insert _ _,
    fun number kept isKept => ?_, fun rejects => ?_, fun rejects => ?_⟩
  · by_cases same : messageId = number
    · subst same
      rw [Registry.get?_insert_self] at isKept
      cases isKept
      exact ⟨_, List.mem_append_right _ (List.mem_singleton.mpr rfl), rfl, storedAs⟩
    · rw [Registry.get?_insert_of_ne _ same] at isKept
      obtain ⟨addition, member, sameId, storedAs⟩ := history.stored number kept isKept
      exact ⟨addition, List.mem_append_left _ member, sameId, storedAs⟩
  · obtain ⟨_, withOld, pairwise⟩ := settledTypes rejects
    rw [allTypes, List.pairwise_append]
    exact ⟨history.compatible rejects, pairwise, withOld⟩
  · rw [allTypes]
    exact (settledTypes rejects).1

/-- Every reachable draft has a history. -/
theorem SchemaDraft.Reachable.history {policy : DuplicatePolicy} {draft : SchemaDraft}
    (reachable : draft.Reachable policy) : ∃ additions, draft.History policy additions := by
  induction reachable with
  | start options identity headerTokens chosen =>
      refine ⟨[], chosen, List.nodup_nil, fun messageId tokens isStored => ?_, fun _ => .nil,
        fun _ => ?_⟩
      · cases isStored
      · exact fun type member => absurd member List.not_mem_nil
  | configure _ options identity chosen ih =>
      obtain ⟨additions, history⟩ := ih
      exact ⟨additions, chosen, history.distinct, history.stored, history.compatible,
        history.covers⟩
  | add _ accepted ih =>
      obtain ⟨additions, history⟩ := ih
      obtain ⟨addition, extended⟩ := history.add accepted
      exact ⟨_, extended⟩

/-! ### Several messages -/

/-- A draft with some messages added in turn. -/
def SchemaDraft.addMessages (draft : SchemaDraft) (messages : List (Int64 × List Token)) :
    Except SchemaError SchemaDraft :=
  messages.foldlM (fun draft message => draft.addMessage message.1 message.2) draft

/-- Messages that were accepted one after another pass every check. -/
theorem SchemaDraft.storedAs_of_addMessages {messages : List (Int64 × List Token)} :
    ∀ {draft extended : SchemaDraft}, draft.addMessages messages = .ok extended →
      ∀ message ∈ messages, ∃ types stored,
        (Addition.mk message.1 message.2 types).StoredAs stored := by
  induction messages with
  | nil => exact fun _ message member => absurd member List.not_mem_nil
  | cons first others ih =>
      intro draft extended added
      rw [SchemaDraft.addMessages, List.foldlM_cons] at added
      obtain ⟨between, accepted, addedOthers⟩ := ok_of_bind added
      obtain ⟨types, stored, _, storedAs, _⟩ := SchemaDraft.addMessage_settles accepted
      rw [List.forall_mem_cons]
      exact ⟨⟨types, stored, storedAs⟩, ih addedOthers⟩

/-- Adding messages that pass every check settles all their types, and stores the messages if none
has a conflict. -/
theorem SchemaDraft.addMessages_map_eq {ι : Type} {message : ι → Int64 × List Token}
    {types : ι → List (String × List Token)} {stored : ι → List Token} {indices : List ι}
    (storedAs : ∀ index ∈ indices,
      (Addition.mk (message index).1 (message index).2 (types index)).StoredAs (stored index)) :
    ∀ draft : SchemaDraft, draft.addMessages (indices.map message) =
      (settleTypes draft.options.duplicateTypes draft.types (indices.flatMap types)).map
        fun settled =>
          { draft with
            types := settled
            messages := draft.messages.extend
              ⟨indices.map fun index => ((message index).1, stored index)⟩ } := by
  induction indices with
  | nil => exact fun _ => rfl
  | cons first others ih =>
      intro draft
      rw [List.forall_mem_cons] at storedAs
      have one := storedAs.1.addMessage draft
      rw [SchemaDraft.addMessages, List.map_cons, List.foldlM_cons, List.flatMap_cons,
        settleTypes_append]
      dsimp only at one
      rw [one]
      cases settled : settleTypes draft.options.duplicateTypes draft.types (types first) with
      | error problem => rfl
      | ok next =>
          exact ih storedAs.2
            { draft with
              types := next
              messages := draft.messages.insert (message first).1 (stored first) }

theorem SchemaDraft.addMessages_eq {types : Int64 × List Token → List (String × List Token)}
    {stored : Int64 × List Token → List Token} {messages : List (Int64 × List Token)}
    (storedAs : ∀ message ∈ messages,
      (Addition.mk message.1 message.2 (types message)).StoredAs (stored message))
    (draft : SchemaDraft) : draft.addMessages messages =
      (settleTypes draft.options.duplicateTypes draft.types (messages.flatMap types)).map
        fun settled =>
          { draft with
            types := settled
            messages := draft.messages.extend
              ⟨messages.map fun message => (message.1, stored message)⟩ } := by
  have all := @addMessages_map_eq _ id types stored messages storedAs draft
  rwa [List.map_id] at all

theorem SchemaDraft.Reachable.addMessages {policy : DuplicatePolicy}
    {messages : List (Int64 × List Token)} {draft extended : SchemaDraft}
    (reachable : draft.Reachable policy) (added : draft.addMessages messages = .ok extended) :
    extended.Reachable policy := by
  induction messages generalizing draft with
  | nil =>
      cases added
      exact reachable
  | cons first others ih =>
      rw [SchemaDraft.addMessages, List.foldlM_cons] at added
      obtain ⟨between, accepted, addedOthers⟩ := ok_of_bind added
      exact ih (reachable.add accepted) addedOthers

/-! ### Drafts and the messages that were added -/

/-- The drafts that come about under one choice for types that are defined twice, with the messages
that were added to them. -/
inductive SchemaDraft.BuiltFrom (policy : DuplicatePolicy) :
    List (Int64 × List Token) → SchemaDraft → Prop where
  | start (options : SchemaOptions) (identity : SchemaIdentity) (headerTokens : List Token)
      (chosen : options.duplicateTypes = policy) :
      BuiltFrom policy [] { options, identity, headerTokens }
  | configure {messages : List (Int64 × List Token)} {draft : SchemaDraft}
      (built : BuiltFrom policy messages draft) (options : SchemaOptions)
      (identity : SchemaIdentity) (chosen : options.duplicateTypes = policy) :
      BuiltFrom policy messages { draft with options, identity }
  | add {messages : List (Int64 × List Token)} {draft extended : SchemaDraft} {messageId : Int64}
      {tokens : List Token} (built : BuiltFrom policy messages draft)
      (accepted : draft.addMessage messageId tokens = .ok extended) :
      BuiltFrom policy (messages ++ [(messageId, tokens)]) extended

namespace SchemaDraft.BuiltFrom

variable {policy : DuplicatePolicy} {messages : List (Int64 × List Token)} {draft : SchemaDraft}

/-- Every message that was added passes every check. -/
theorem storedAs (built : draft.BuiltFrom policy messages) : ∀ message ∈ messages,
    ∃ types stored, (Addition.mk message.1 message.2 types).StoredAs stored := by
  induction built with
  | start => exact fun _ member => absurd member List.not_mem_nil
  | configure _ _ _ _ ih => exact ih
  | add _ accepted ih =>
      obtain ⟨types, stored, _, storedAs, _⟩ := SchemaDraft.addMessage_settles accepted
      rw [List.forall_mem_append, List.forall_mem_singleton]
      exact ⟨ih, types, stored, storedAs⟩

/-- What a draft holds is what the messages come to that were added. -/
theorem holds (built : draft.BuiltFrom policy messages)
    {types : Int64 × List Token → List (String × List Token)}
    {stored : Int64 × List Token → List Token}
    (storedAs : ∀ message ∈ messages,
      (Addition.mk message.1 message.2 (types message)).StoredAs (stored message)) :
    draft.options.duplicateTypes = policy ∧
      settleTypes policy {} (messages.flatMap types) = .ok draft.types ∧
      draft.messages =
        Registry.extend {} ⟨messages.map fun message => (message.1, stored message)⟩ := by
  induction built with
  | start _ _ _ chosen => exact ⟨chosen, rfl, rfl⟩
  | configure _ _ _ chosen ih => exact ⟨chosen, (ih storedAs).2⟩
  | @add messages draft extended messageId tokens _ accepted ih =>
      rw [List.forall_mem_append, List.forall_mem_singleton] at storedAs
      obtain ⟨chosen, settled, isStored⟩ := ih storedAs.1
      have added := storedAs.2.addMessage draft
      dsimp only at added
      rw [accepted, chosen] at added
      obtain ⟨next, isNext, rfl⟩ := ok_of_map added.symm
      refine ⟨chosen, ?_, ?_⟩
      · rw [List.flatMap_append, settleTypes_append, bind_of_ok settled, List.flatMap_singleton,
          isNext]
      · rw [List.map_append, isStored, Registry.extend, Registry.extend, List.foldl_append]
        rfl

/-- Messages may be added at once. -/
theorem addMessages (built : draft.BuiltFrom policy messages)
    {others : List (Int64 × List Token)} {extended : SchemaDraft}
    (added : draft.addMessages others = .ok extended) :
    extended.BuiltFrom policy (messages ++ others) := by
  induction others generalizing draft messages with
  | nil =>
      cases added
      rwa [List.append_nil]
  | cons first others ih =>
      rw [SchemaDraft.addMessages, List.foldlM_cons] at added
      obtain ⟨between, accepted, addedOthers⟩ := ok_of_bind added
      have whole := ih (built.add accepted) addedOthers
      rwa [List.append_assoc] at whole

end SchemaDraft.BuiltFrom

end WireSchema
