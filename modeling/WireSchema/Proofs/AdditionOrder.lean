/-
Module: WireSchema.Proofs.AdditionOrder
Purpose: Where no conflict is allowed, it does not matter in which order messages with different
  numbers are added (`SchemaDraft.addMessages_perm`).  They can be added if each of them passes its
  own check and their types are compatible, with each other and with those of the draft
  (`settles_iff`); and two types are compatible in either order.
Main exports: AlikeTypes, SchemaDraft.AgreeOn, settles_iff, SchemaDraft.addMessages_perm
-/
import WireSchema.Proofs.DraftHistory

namespace WireSchema

/-!
Which of two types with the same layout becomes the definition does depend on the order.  The
definitions that come about are then different, but they have the same layout, and so has every type
that was captured under their name.
-/

/-! ### Types that may be settled -/

/-- The definitions of a registry are a list of types that was seen in it. -/
theorem exists_definitions (registry : Registry String (List Token)) :
    ∃ seen, SchemaDraft.Known registry.get? seen ∧ SchemaDraft.Covers registry.get? seen := by
  refine ⟨(registry.entries.map (·.1)).filterMap fun name =>
    (registry.get? name).map (name, ·), fun name known isKnown => ?_, fun type member full => ?_⟩
  · rw [List.mem_filterMap]
    refine ⟨name, Registry.isSome_get?_iff.mp (by rw [isKnown]; rfl), ?_⟩
    rw [isKnown]
    rfl
  · obtain ⟨name, _, isType⟩ := List.mem_filterMap.mp member
    obtain ⟨known, isKnown, rfl⟩ := Option.map_eq_some_iff.mp isType
    exact ⟨known, isKnown, full, .inl rfl⟩

/-- Types can be settled where no conflict is allowed if they are compatible. -/
theorem settles_iff {registry : Registry String (List Token)}
    {types seen : List (String × List Token)} (known : SchemaDraft.Known registry.get? seen)
    (covers : SchemaDraft.Covers registry.get? seen) :
    (∃ next, settleTypes .reject registry types = .ok next) ↔
      (∀ old ∈ seen, ∀ type ∈ types, Compatible old type) ∧ types.Pairwise Compatible := by
  constructor
  · rintro ⟨next, settled⟩
    exact (covers.settleTypes settled).2
  · intro compatible
    obtain ⟨next, settled, _⟩ := known.settleTypes fun _ => compatible
    exact ⟨next, settled⟩

/-- The same where nothing is known yet. -/
theorem settles_alone_iff {types : List (String × List Token)} :
    (∃ next, settleTypes .reject {} types = .ok next) ↔ types.Pairwise Compatible := by
  have known : SchemaDraft.Known (Registry.get? ({} : Registry String (List Token))) [] :=
    fun _ _ isKnown => by cases isKnown
  have covers : SchemaDraft.Covers (Registry.get? ({} : Registry String (List Token))) [] :=
    fun type member => absurd member List.not_mem_nil
  rw [settles_iff known covers]
  exact and_iff_right fun old member => absurd member List.not_mem_nil

/-- Types that can be settled in one order can be settled in every other. -/
theorem settles_perm {registry : Registry String (List Token)}
    {types reordered : List (String × List Token)} (reorders : types.Perm reordered)
    (settles : ∃ next, settleTypes .reject registry types = .ok next) :
    ∃ next, settleTypes .reject registry reordered = .ok next := by
  obtain ⟨seen, known, covers⟩ := exists_definitions registry
  rw [settles_iff known covers] at settles ⊢
  obtain ⟨withOld, pairwise⟩ := settles
  constructor
  · exact fun old isOld type isType => withOld old isOld type (reorders.mem_iff.mpr isType)
  · exact (reorders.pairwise_iff fun compatible => compatible.symm).mp pairwise

/-! ### Definitions -/

/-- Two types that are the same or at least have the same layout. -/
def AlikeTypes (one other : List Token) : Prop :=
  one = other ∨ sameLayout one other = true

theorem AlikeTypes.symm {one other : List Token} (alike : AlikeTypes one other) :
    AlikeTypes other one :=
  alike.imp Eq.symm sameLayout_symm

theorem AlikeTypes.trans {one between other : List Token} (first : AlikeTypes one between)
    (second : AlikeTypes between other) : AlikeTypes one other := by
  rcases first with rfl | first
  · exact second
  rcases second with rfl | second
  · exact .inr first
  · exact .inr (sameLayout_trans first second)

/-- The definition of a type that was settled where no conflict is allowed. -/
theorem definition_of_settled {registry next : Registry String (List Token)}
    {types : List (String × List Token)}
    (settled : settleTypes .reject registry types = .ok next) :
    ∀ type ∈ types, isReducedEnum type.2 = false →
      ∃ known, next.get? type.1 = some known ∧ AlikeTypes known type.2 := by
  obtain ⟨seen, _, covers⟩ := exists_definitions registry
  intro type member full
  obtain ⟨known, isKnown, _, alike⟩ :=
    (covers.settleTypes settled).1 type (List.mem_append_right seen member) full
  exact ⟨known, isKnown, alike⟩

/-! ### Messages in another order -/

/-- What two drafts agree in that some messages were added to: the messages under each number, the
names of the types, and the definitions of the types that these messages hold, if they are more than
enums reduced to a constant. -/
structure SchemaDraft.AgreeOn (added : List (Int64 × List Token)) (one other : SchemaDraft) :
    Prop where
  messages : ∀ messageId, one.messages.get? messageId = other.messages.get? messageId
  names : ∀ name, (one.types.get? name).isSome = (other.types.get? name).isSome
  definitions : ∀ message ∈ added, ∀ types, HoldsTypes message.2 types →
    ∀ type ∈ types, isReducedEnum type.2 = false →
      ∃ first second, one.types.get? type.1 = some first ∧
        other.types.get? type.1 = some second ∧ AlikeTypes first type.2 ∧
        AlikeTypes second type.2 ∧ AlikeTypes first second

/-- The types that some tokens hold are determined by the tokens. -/
theorem HoldsTypes.unique {tokens : List Token} {types others : List (String × List Token)}
    (one : HoldsTypes tokens types) (other : HoldsTypes tokens others) : types = others := by
  obtain ⟨captured, isCaptured, measured⟩ := one
  obtain ⟨_, isCapturedAgain, measuredAgain⟩ := other
  cases isCaptured.symm.trans isCapturedAgain
  clear isCaptured isCapturedAgain
  induction measured generalizing others with
  | nil =>
      cases measuredAgain
      rfl
  | cons first _ ih =>
      cases measuredAgain with
      | cons firstAgain othersAgain => rw [first.eq firstAgain, ih othersAgain]

/-- A registry of the same entries in another order. -/
theorem Registry.get?_perm {κ α : Type} [DecidableEq κ] {entries reordered : List (κ × α)}
    (reorders : entries.Perm reordered) (distinct : (Registry.mk entries).Distinct) (key : κ) :
    (Registry.mk entries).get? key = (Registry.mk reordered).get? key := by
  have keys : (entries.map (·.1)).Perm (reordered.map (·.1)) := reorders.map _
  have stillDistinct : (Registry.mk reordered).Distinct := keys.nodup_iff.mp distinct
  refine Option.ext fun value => ?_
  rw [Registry.get?_eq_some_iff distinct, Registry.get?_eq_some_iff stillDistinct]
  exact reorders.mem_iff

section

variable {draft : SchemaDraft} {messages reordered : List (Int64 × List Token)}

/-- Messages that can be added in one order can be added in every other. -/
theorem SchemaDraft.adds_perm (rejects : draft.options.duplicateTypes = .reject)
    (reorders : messages.Perm reordered)
    (adds : ∃ extended, draft.addMessages messages = .ok extended) :
    ∃ extended, draft.addMessages reordered = .ok extended := by
  obtain ⟨extended, added⟩ := adds
  have each := SchemaDraft.storedAs_of_addMessages added
  choose! types stored storedAs using each
  have storedAsToo : ∀ message ∈ reordered,
      (Addition.mk message.1 message.2 (types message)).StoredAs (stored message) :=
    fun message member => storedAs message (reorders.mem_iff.mpr member)
  rw [SchemaDraft.addMessages_eq storedAs, rejects] at added
  obtain ⟨settled, isSettled, _⟩ := ok_of_map added
  obtain ⟨next, isNext⟩ :=
    settles_perm (reorders.flatMap_right types) ⟨settled, isSettled⟩
  rw [SchemaDraft.addMessages_eq storedAsToo, rejects, isNext]
  exact ⟨_, rfl⟩

/-- Drafts that the same messages were added to in two orders. -/
theorem SchemaDraft.agree_perm (rejects : draft.options.duplicateTypes = .reject)
    (distinct : (messages.map (·.1)).Nodup) (reorders : messages.Perm reordered)
    {one other : SchemaDraft} (added : draft.addMessages messages = .ok one)
    (addedToo : draft.addMessages reordered = .ok other) : AgreeOn messages one other := by
  have each := SchemaDraft.storedAs_of_addMessages added
  choose! types stored storedAs using each
  have storedAsToo : ∀ message ∈ reordered,
      (Addition.mk message.1 message.2 (types message)).StoredAs (stored message) :=
    fun message member => storedAs message (reorders.mem_iff.mpr member)
  rw [SchemaDraft.addMessages_eq storedAs, rejects] at added
  rw [SchemaDraft.addMessages_eq storedAsToo, rejects] at addedToo
  obtain ⟨first, isFirst, rfl⟩ := ok_of_map added
  obtain ⟨second, isSecond, rfl⟩ := ok_of_map addedToo
  have sameTypes := reorders.flatMap_right types
  refine ⟨fun messageId => ?_, fun name => ?_,
    fun message member others held type isType full => ?_⟩
  · have entries := reorders.map fun message => (message.1, stored message)
    have distinctEntries :
        (Registry.mk (messages.map fun message => (message.1, stored message))).Distinct := by
      rw [Registry.Distinct, List.map_map]
      exact distinct
    have stillDistinct :
        (Registry.mk (reordered.map fun message => (message.1, stored message))).Distinct := by
      rw [Registry.Distinct, List.map_map]
      exact (reorders.map (·.1)).nodup_iff.mp distinct
    rw [Registry.get?_extend _ _ distinctEntries, Registry.get?_extend _ _ stillDistinct,
      Registry.get?_perm entries distinctEntries]
  · rw [Bool.eq_iff_iff, Registry.isSome_get?_iff, Registry.isSome_get?_iff,
      keys_settleTypes isFirst, keys_settleTypes isSecond, mem_foldl_withName,
      mem_foldl_withName, (sameTypes.map (·.1)).mem_iff]
  · cases held.unique (storedAs message member).held
    have isFirstType : type ∈ messages.flatMap types :=
      List.mem_flatMap.mpr ⟨message, member, isType⟩
    obtain ⟨known, isKnown, alike⟩ := definition_of_settled isFirst type isFirstType full
    obtain ⟨knownToo, isKnownToo, alikeToo⟩ :=
      definition_of_settled isSecond type (sameTypes.mem_iff.mp isFirstType) full
    exact ⟨known, knownToo, isKnown, isKnownToo, alike, alikeToo, alike.trans alikeToo.symm⟩

/-- Where no conflict is allowed, messages with different numbers can be added in one order if they
can be added in another, and the two drafts that come about agree. -/
theorem SchemaDraft.addMessages_perm (rejects : draft.options.duplicateTypes = .reject)
    (distinct : (messages.map (·.1)).Nodup) (reorders : messages.Perm reordered) :
    ((∃ extended, draft.addMessages messages = .ok extended) ↔
        ∃ extended, draft.addMessages reordered = .ok extended) ∧
      ∀ one other, draft.addMessages messages = .ok one →
        draft.addMessages reordered = .ok other → AgreeOn messages one other := by
  refine ⟨⟨adds_perm rejects reorders, adds_perm rejects reorders.symm⟩, fun one other => ?_⟩
  exact agree_perm rejects distinct reorders

end

/-- A draft without messages that allows no conflict. -/
def strictDraft : SchemaDraft :=
  { emptyDraft with options := { duplicateTypes := .reject } }

/-- A notice of a side, which stands at the start of the notice and not behind other members. -/
def noticeMessage : MessageTree :=
  let atStart : EnumTree :=
    { sideType with opening := ⟨{ sideType.opening.1 with offset := 0 }, sideType.opening.2⟩ }
  ⟨⟨{ signal := .beginMessage, name := "Notice" }, rfl⟩,
    .block [⟨⟨{ signal := .beginField, name := "side" }, rfl⟩, .enumeration atStart,
      ⟨{ signal := .endField, name := "side" }, rfl⟩⟩] [] [],
    ⟨{ signal := .endMessage, name := "Notice" }, rfl⟩⟩

/-- An order and a notice, either of them first.  The place of the side in the message that comes
first is in the definition. -/
theorem addMessages_perm_notice :
    let messages := [(1, orderMessage.tokens), (2, noticeMessage.tokens)]
    strictDraft.options.duplicateTypes = .reject ∧ (messages.map (·.1)).Nodup ∧
      messages.Perm messages.reverse ∧
      ∃ one other, strictDraft.addMessages messages = .ok one ∧
        strictDraft.addMessages messages.reverse = .ok other ∧
        SchemaDraft.AgreeOn messages one other ∧
        one.types.get? "Side" ≠ other.types.get? "Side" := by
  intro messages
  have distinct : (messages.map (·.1)).Nodup := by decide
  have reorders : messages.Perm messages.reverse := messages.reverse_perm.symm
  have adds : (strictDraft.addMessages messages).toOption.isSome = true := by decide +kernel
  obtain ⟨one, added⟩ := exists_ok_of_isSome adds
  have independent := SchemaDraft.addMessages_perm (rfl : strictDraft.options.duplicateTypes = _)
    distinct reorders
  obtain ⟨other, addedToo⟩ := independent.1.mp ⟨one, added⟩
  have differ : ∀ one ∈ (strictDraft.addMessages messages).toOption,
      ∀ other ∈ (strictDraft.addMessages messages.reverse).toOption,
        one.types.get? "Side" ≠ other.types.get? "Side" := by decide +kernel
  refine ⟨rfl, distinct, reorders, one, other, added, addedToo, independent.2 one other added
    addedToo, differ one ?_ other ?_⟩
  · rw [added]
    rfl
  · rw [addedToo]
    rfl

end WireSchema
