/-
Module: WireSchema.Proofs.TypeReuse
Purpose: A type that comes once more, the same but for numbers, versions and the place of its
  outermost pair, should keep its first definition.  It does exactly if the type is steady
  (`Steady`): if it is a reduced enum, or if none of its values is the one that is not a number.
  That value differs from itself, so a type that holds it has another layout than itself: used
  again, it is a conflict where none is allowed, and takes the place of its own definition otherwise
  (`SchemaDraft.addMessages_usedAgain`).
Main exports: UsedAgain, Steady, SchemaDraft.addMessages_usedAgain, gauges_usedAgain_conflict
-/
import WireSchema.Proofs.LoadedTypes

namespace WireSchema

/-! ### Values that differ from themselves -/

/-- Whether a value is a floating point value that is not a number. -/
def Value.isNaN : Value → Bool
  | .float number => number.isNaN
  | _ => false

theorem Value.agrees_self_iff {value : Value} :
    value.agrees value = true ↔ value.isNaN = false := by
  cases value <;> simp [agrees, isNaN, Binary64.sameNumber]

theorem optionalAgrees_self_iff {content : Option Value} :
    optionalAgrees content content = true ↔ ∀ value ∈ content, value.isNaN = false := by
  cases content with
  | none => simp [optionalAgrees]
  | some value => simp [optionalAgrees, Value.agrees_self_iff]

/-- An encoding is equal to itself if each of its values is. -/
theorem Encoding.agrees_self_iff {encoding : Encoding} :
    encoding.agrees encoding = true ↔ ∀ value ∈ encoding.values, value.isNaN = false := by
  simp only [agrees, beq_self_eq_true, Bool.true_and, Bool.and_true, Bool.and_eq_true,
    optionalAgrees_self_iff, values, List.forall_mem_append, Option.mem_toList]
  constructor
  · rintro ⟨⟨⟨least, greatest⟩, null⟩, const⟩
    exact ⟨⟨⟨const, least⟩, greatest⟩, null⟩
  · rintro ⟨⟨⟨const, least⟩, greatest⟩, null⟩
    exact ⟨⟨⟨least, greatest⟩, null⟩, const⟩

/-- A type has the same layout as itself if none of its values is not a number. -/
theorem sameLayout_self_iff {tokens : List Token} : sameLayout tokens tokens = true ↔
    ∀ token ∈ tokens, ∀ value ∈ token.encoding.values, value.isNaN = false := by
  simp only [← Encoding.agrees_self_iff]
  refine ⟨fun same token member => ?_, sameLayout_self⟩
  obtain ⟨index, isToken⟩ := List.mem_iff_getElem?.mp member
  exact ((sameLayout_iff.mp same).2 index token token isToken isToken).encoding

/-! ### Types used again -/

/-- What a token says that does not depend on where its type is used. -/
def Token.content (token : Token) : Token :=
  { token with id := -1, version := 0, storedSpan := 1, offset := 0 }

/-- Whether two types are the same token for token, but for numbers, versions and spans, and but for
the place of the outermost pair. -/
def UsedAgain (one other : List Token) : Prop :=
  one.length = other.length ∧ ∀ place ∈ (one.zip other).zipIdx,
    place.1.1.content = place.1.2.content ∧
      (place.2 = 0 ∨ place.2 = one.length - 1 ∨ place.1.1.offset = place.1.2.offset)

instance (one other : List Token) : Decidable (UsedAgain one other) :=
  inferInstanceAs (Decidable (_ ∧ _))

theorem usedAgain_iff {one other : List Token} : UsedAgain one other ↔
    one.length = other.length ∧ ∀ (index : Nat) (first second : Token),
      one[index]? = some first → other[index]? = some second →
        first.content = second.content ∧
          (index = 0 ∨ index = one.length - 1 ∨ first.offset = second.offset) := by
  simp only [UsedAgain, Prod.forall, List.mem_zipIdx_iff_getElem?, List.getElem?_zip_eq_some]
  refine and_congr_right fun _ => ⟨fun all index first second isFirst isSecond => ?_,
    fun all first second index both => all index first second both.1 both.2⟩
  exact all first second index ⟨isFirst, isSecond⟩

theorem UsedAgain.refl (tokens : List Token) : UsedAgain tokens tokens := by
  rw [usedAgain_iff]
  refine ⟨rfl, fun index one other isOne isOther => ?_⟩
  cases isOne.symm.trans isOther
  exact ⟨rfl, .inr (.inr rfl)⟩

theorem UsedAgain.symm {one other : List Token} (again : UsedAgain one other) :
    UsedAgain other one := by
  rw [usedAgain_iff] at again ⊢
  obtain ⟨length, all⟩ := again
  refine ⟨length.symm, fun index first second isFirst isSecond => ?_⟩
  obtain ⟨content, offset⟩ := all index second first isSecond isFirst
  rw [length] at offset
  exact ⟨content.symm, offset.imp_right (Or.imp_right Eq.symm)⟩

/-- What agrees with a token of a layout agrees with every token of the same content there. -/
theorem LayoutAgrees.of_content {atEnd : Prop} {known first second : Token}
    (agrees : LayoutAgrees atEnd known first) (content : first.content = second.content)
    (offset : atEnd ∨ first.offset = second.offset) : LayoutAgrees atEnd known second := by
  obtain ⟨signal, name, encodedLength, encoding, place⟩ := agrees
  have sameEncoding : first.encoding = second.encoding := congrArg (·.encoding) content
  refine ⟨signal.trans (congrArg (·.signal) content), name.trans (congrArg (·.name) content),
    encodedLength.trans (congrArg (·.encodedLength) content), ?_, ?_⟩
  · rwa [← sameEncoding]
  · rcases place with atEnd | place
    · exact .inl atEnd
    · exact offset.imp_right place.trans

/-- A type used again has the layouts that it had. -/
theorem UsedAgain.sameLayout {known one other : List Token} (again : UsedAgain one other)
    (same : WireSchema.sameLayout known one = true) : WireSchema.sameLayout known other = true := by
  rw [usedAgain_iff] at again
  rw [sameLayout_iff] at same ⊢
  obtain ⟨length, agrees⟩ := same
  refine ⟨length.trans again.1, fun index token second isToken isSecond => ?_⟩
  have inside : index < one.length := by
    rw [← length]
    exact (List.getElem?_eq_some_iff.mp isToken).1
  have isFirst := List.getElem?_eq_getElem inside
  obtain ⟨content, offset⟩ := again.2 index _ second isFirst isSecond
  rw [← length, ← or_assoc] at offset
  exact (agrees index token _ isToken isFirst).of_content content offset

theorem UsedAgain.isReducedEnum {one other : List Token} (again : UsedAgain one other) :
    WireSchema.isReducedEnum one = WireSchema.isReducedEnum other := by
  obtain ⟨length, all⟩ := usedAgain_iff.mp again
  refine isReducedEnum_congr (List.ext_getElem? fun index => ?_)
  simp only [List.getElem?_map]
  by_cases inside : index < one.length
  · have isFirst := List.getElem?_eq_getElem inside
    have alsoInside : index < other.length := length ▸ inside
    have isSecond := List.getElem?_eq_getElem alsoInside
    have content := (all index _ _ isFirst isSecond).1
    have sameSignal : one[index].signal = other[index].signal := congrArg (·.signal) content
    have sameConstant : one[index].isConstant = other[index].isConstant :=
      congrArg (·.encoding.presence == .constant) content
    rw [isFirst, isSecond, Option.map_some, Option.map_some, sameSignal, sameConstant]
  · rw [List.getElem?_eq_none (by omega), List.getElem?_eq_none (by omega)]

/-! ### Steady types -/

/-- Whether a type is a reduced enum, or no value of it is not a number. -/
def Steady (tokens : List Token) : Prop :=
  isReducedEnum tokens = true ∨
    ∀ token ∈ tokens, ∀ value ∈ token.encoding.values, value.isNaN = false

instance (tokens : List Token) : Decidable (Steady tokens) :=
  inferInstanceAs (Decidable (_ ∨ _))

/-- What a definition is to a type that was settled under its name: the type would keep it if it is
steady, and is the definition itself, or was used again for it, if it is not. -/
structure StandsFor (first known : List Token) : Prop where
  steady : Steady first → isReducedEnum first = true ∨ sameLayout known first = true
  unsteady : ¬Steady first → UsedAgain first known

/-- A definition is kept for a type that has its layout, or that is a reduced enum. -/
theorem decideType_eq_keep_iff {policy : DuplicatePolicy} {known captured : List Token} :
    decideType policy (some known) captured = .keep ↔
      isReducedEnum captured = true ∨ sameLayout known captured = true := by
  rw [decideType, or_comm, ← Bool.or_eq_true]
  by_cases kept : (sameLayout known captured || isReducedEnum captured) = true
  · simp only [kept, if_true]
  · rw [if_neg kept]
    split <;> simp only [kept, reduceCtorEq]

/-- A type that is used again keeps the definition that stands for it exactly if it is steady. -/
theorem StandsFor.keeps_iff {first known second : List Token} (stands : StandsFor first known)
    (again : UsedAgain first second) :
    isReducedEnum second = true ∨ sameLayout known second = true ↔ Steady first := by
  constructor
  · intro keeps
    by_contra unsteady
    rcases keeps with reduced | same
    · exact unsteady (.inl (again.isReducedEnum.trans reduced))
    · have self := (stands.unsteady unsteady).symm.sameLayout
        (sameLayout_symm (again.symm.sameLayout same))
      exact unsteady (.inr (sameLayout_self_iff.mp self))
  · intro steady
    exact (stands.steady steady).imp again.isReducedEnum.symm.trans again.sameLayout

/-- A definition that is no reduced enum is kept, is in conflict, or is replaced. -/
theorem StandsFor.decideType_again {policy : DuplicatePolicy} {first known second : List Token}
    (stands : StandsFor first known) (again : UsedAgain first second) :
    decideType policy (some known) second =
      if Steady first then .keep else if policy = .reject then .conflict else .define := by
  by_cases steady : Steady first
  · rw [if_pos steady, decideType_eq_keep_iff, stands.keeps_iff again]
    exact steady
  · have known_full : isReducedEnum known = false := by
      rw [← (stands.unsteady steady).isReducedEnum]
      exact Bool.eq_false_iff.mpr fun reduced => steady (.inl reduced)
    have notKept : (sameLayout known second || isReducedEnum second) = false := by
      rw [Bool.eq_false_iff, ne_eq, Bool.or_eq_true, or_comm, stands.keeps_iff again]
      exact steady
    rw [if_neg steady, decideType, notKept, known_full]
    cases policy <;> rfl

/-- A type that is settled has a definition that stands for it. -/
theorem standsFor_of_settleType {policy : DuplicatePolicy}
    {registry next : Registry String (List Token)} {type : String × List Token}
    (settled : settleType policy registry type = .ok next) :
    ∃ known, next.get? type.1 = some known ∧ StandsFor type.2 known := by
  rcases settleType_eq_ok_iff.mp settled with ⟨keeps, rfl⟩ | ⟨_, rfl⟩
  · cases isKnown : next.get? type.1 with
    | none =>
        rw [isKnown] at keeps
        cases keeps
    | some known =>
        rw [isKnown, decideType_eq_keep_iff] at keeps
        have steady : Steady type.2 := keeps.imp_right fun same =>
          sameLayout_self_iff.mp (sameLayout_trans (sameLayout_symm same) same)
        exact ⟨known, rfl, fun _ => keeps, absurd steady⟩
  · refine ⟨type.2, Registry.get?_insert_self _ _ _, fun steady => ?_, fun _ => .refl _⟩
    exact steady.imp_right sameLayout_self_iff.mpr

/-- Whether a type of a name is a reduced enum, or another use of the type that is known by it. -/
def NothingElse (first other : String × List Token) : Prop :=
  other.1 = first.1 → isReducedEnum other.2 = true ∨ UsedAgain first.2 other.2

/-- A definition stands for a type as long as nothing else is settled under its name. -/
theorem standsFor_of_settleTypes {policy : DuplicatePolicy} {first : String × List Token}
    {types : List (String × List Token)} :
    ∀ {registry next : Registry String (List Token)} {known : List Token},
      (∀ type ∈ types, NothingElse first type) →
      registry.get? first.1 = some known → StandsFor first.2 known →
      settleTypes policy registry types = .ok next →
      ∃ known, next.get? first.1 = some known ∧ StandsFor first.2 known := by
  induction types with
  | nil =>
      intro registry next known _ isKnown stands settled
      cases settled
      exact ⟨known, isKnown, stands⟩
  | cons type types ih =>
      intro registry next known nothingElse isKnown stands settled
      rw [List.forall_mem_cons] at nothingElse
      rw [settleTypes_cons] at settled
      obtain ⟨between, isBetween, later⟩ := ok_of_bind settled
      rcases settleType_eq_ok_iff.mp isBetween with ⟨_, rfl⟩ | ⟨defines, rfl⟩
      · exact ih nothingElse.2 isKnown stands later
      by_cases sameName : type.1 = first.1
      · have replaces : ¬(isReducedEnum type.2 = true ∨ sameLayout known type.2 = true) := by
          rw [← @decideType_eq_keep_iff policy, ← isKnown, ← sameName, defines]
          exact TypeDecision.noConfusion
        have again : UsedAgain first.2 type.2 :=
          (nothingElse.1 sameName).resolve_left fun reduced => replaces (.inl reduced)
        have unsteady : ¬Steady first.2 := fun steady =>
          replaces ((stands.steady steady).imp again.isReducedEnum.symm.trans again.sameLayout)
        refine ih nothingElse.2 ?_ ⟨fun steady => absurd steady unsteady, fun _ => again⟩ later
        rw [← sameName]
        exact Registry.get?_insert_self _ _ _
      · refine ih nothingElse.2 ?_ stands later
        rwa [Registry.get?_insert_of_ne _ sameName]

/-! ### Settling a type again -/

section

variable {policy : DuplicatePolicy} {registry : Registry String (List Token)}
  {before between after : List (String × List Token)} {first second : String × List Token}

/-- What a type does that is used again where a definition stands for it. -/
theorem StandsFor.settleType_again {known : List Token} (stands : StandsFor first.2 known)
    (isKnown : registry.get? first.1 = some known) (sameName : second.1 = first.1)
    (again : UsedAgain first.2 second.2) :
    settleType policy registry second =
      if Steady first.2 then .ok registry
      else if policy = .reject then .error (.conflictingType first.1)
      else .ok (registry.insert first.1 second.2) := by
  rw [settleType, sameName, isKnown, stands.decideType_again again]
  split_ifs <;> rfl

/-- What a type does that is used again, with nothing else under its name in between. -/
theorem settleTypes_again (sameName : second.1 = first.1) (again : UsedAgain first.2 second.2)
    (nothingElse : ∀ type ∈ between, NothingElse first type) :
    settleTypes policy registry (before ++ first :: (between ++ second :: after)) =
      settleTypes policy registry (before ++ first :: between) >>= fun settled =>
        if Steady first.2 then settleTypes policy settled after
        else if policy = .reject then .error (.conflictingType first.1)
        else settleTypes policy (settled.insert first.1 second.2) after := by
  have parts : before ++ first :: (between ++ second :: after) =
      (before ++ first :: between) ++ second :: after := by
    rw [List.append_assoc, List.cons_append]
  rw [parts, settleTypes_append]
  cases front : settleTypes policy registry (before ++ first :: between) with
  | error problem => rfl
  | ok settled =>
      rw [settleTypes_append] at front
      obtain ⟨ready, _, front⟩ := ok_of_bind front
      rw [settleTypes_cons] at front
      obtain ⟨known, isFirst, isBetween⟩ := ok_of_bind front
      obtain ⟨definition, isDefined, stands⟩ := standsFor_of_settleType isFirst
      obtain ⟨later, isLater, laterStands⟩ :=
        standsFor_of_settleTypes nothingElse isDefined stands isBetween
      change settleTypes policy settled (second :: after) = _
      rw [settleTypes_cons, laterStands.settleType_again isLater sameName again]
      change _ = if _ then _ else _
      split_ifs <;> rfl

end

/-! ### Messages that use a type again -/

/-- The types that some tokens hold, with their spans. -/
def heldTypes (tokens : List Token) : List (String × List Token) :=
  ((typesOf tokens).toOption.getD []).map fun captured =>
    (captured.1, (withSpans captured.2).toOption.getD [])

theorem HoldsTypes.eq_heldTypes {tokens : List Token} {types : List (String × List Token)}
    (held : HoldsTypes tokens types) : types = heldTypes tokens := by
  obtain ⟨captured, isCaptured, measured⟩ := held
  rw [heldTypes, isCaptured]
  clear isCaptured
  induction measured with
  | nil => rfl
  | @cons captured type _ _ measured _ ih =>
      have isFirst : type = (captured.1, (withSpans captured.2).toOption.getD []) := by
        rw [measured.measured]
        exact Prod.ext measured.name rfl
      exact congrArg₂ List.cons isFirst ih

/-- Whether a message passes every check but that of its types against those that are known. -/
def Storable (message : Int64 × List Token) : Prop :=
  ∃ types stored, (Addition.mk message.1 message.2 types).StoredAs stored

variable {policy : DuplicatePolicy} {messages : List (Int64 × List Token)}
  {before between after : List (String × List Token)} {first second : String × List Token}

/-- The types of a draft after some messages are those that were there, with the types of the
messages settled in turn. -/
theorem SchemaDraft.types_addMessages (storable : ∀ message ∈ messages, Storable message)
    (draft : SchemaDraft) : (draft.addMessages messages).map (·.types) =
      settleTypes draft.options.duplicateTypes draft.types
        (messages.flatMap fun message => heldTypes message.2) := by
  have held : ∀ message ∈ messages, ∃ stored,
      (Addition.mk message.1 message.2 (heldTypes message.2)).StoredAs stored := by
    intro message member
    obtain ⟨types, stored, storedAs⟩ := storable message member
    have isHeld : types = heldTypes message.2 := storedAs.held.eq_heldTypes
    exact ⟨stored, isHeld ▸ storedAs⟩
  choose! stored storedAs using held
  rw [@SchemaDraft.addMessages_eq (fun message => heldTypes message.2) _ _ storedAs]
  cases settleTypes draft.options.duplicateTypes draft.types
    (messages.flatMap fun message => heldTypes message.2) <;> rfl

/-- A type that comes again, in one message or in another, with nothing else under its name in
between.  If it is steady, it changes nothing.  If it is not, then all that came before it being
settled, it is a conflict where none is allowed, and takes the place of its definition otherwise. -/
theorem SchemaDraft.addMessages_usedAgain (draft : SchemaDraft)
    (storable : ∀ message ∈ messages, Storable message)
    (held : (messages.flatMap fun message => heldTypes message.2) =
      before ++ first :: (between ++ second :: after))
    (sameName : second.1 = first.1) (again : UsedAgain first.2 second.2)
    (nothingElse : ∀ type ∈ between, NothingElse first type) :
    (Steady first.2 → (draft.addMessages messages).map (·.types) =
      settleTypes draft.options.duplicateTypes draft.types
        (before ++ first :: (between ++ after))) ∧
    (¬Steady first.2 → ∀ settled, settleTypes draft.options.duplicateTypes draft.types
        (before ++ first :: between) = .ok settled →
      (draft.addMessages messages).map (·.types) =
        match draft.options.duplicateTypes with
        | .reject => .error (.conflictingType first.1)
        | .lastWins => settleTypes .lastWins (settled.insert first.1 second.2) after) := by
  rw [SchemaDraft.types_addMessages storable, held, settleTypes_again sameName again nothingElse]
  constructor
  · intro steady
    simp only [if_pos steady]
    rw [← settleTypes_append, List.append_assoc, List.cons_append]
  · intro unsteady settled isSettled
    rw [bind_of_ok isSettled, if_neg unsteady]
    cases draft.options.duplicateTypes <;> rfl

/-- The side of a notice comes after the two of an order, and leaves their definition as it is. -/
theorem addMessages_usedAgain_notice :
    let messages := [(1, orderMessage.tokens), (2, noticeMessage.tokens)]
    let ofOrder := heldTypes orderMessage.tokens
    (∀ message ∈ messages, Storable message) ∧
      ∃ first second, first ≠ second ∧ UsedAgain first.2 second.2 ∧ Steady first.2 ∧
        ofOrder[1]? = some first ∧ heldTypes noticeMessage.tokens = [second] ∧
        (strictDraft.addMessages messages).map (·.types) = settleTypes .reject {} ofOrder := by
  intro messages ofOrder
  have adds : (strictDraft.addMessages messages).toOption.isSome = true := by decide +kernel
  obtain ⟨extended, added⟩ := exists_ok_of_isSome adds
  have storable : ∀ message ∈ messages, Storable message :=
    SchemaDraft.storedAs_of_addMessages added
  refine ⟨storable, ofOrder[1]!, (heldTypes noticeMessage.tokens)[0]!, by decide +kernel,
    by decide +kernel, by decide +kernel, by decide +kernel, by decide +kernel, ?_⟩
  have held : (messages.flatMap fun message => heldTypes message.2) =
      ofOrder.take 1 ++ ofOrder[1]! ::
        (ofOrder.drop 2 ++ (heldTypes noticeMessage.tokens)[0]! :: []) := by decide +kernel
  have whole : ofOrder.take 1 ++ ofOrder[1]! :: (ofOrder.drop 2 ++ []) = ofOrder := by
    decide +kernel
  have nothingElse : ∀ type ∈ ofOrder.drop 2, NothingElse ofOrder[1]! type := by
    unfold NothingElse
    decide +kernel
  have again := (SchemaDraft.addMessages_usedAgain strictDraft storable held (by decide +kernel)
    (by decide +kernel) nothingElse).1 (by decide +kernel)
  rwa [whole] at again

/-- Two gauges: a composite of one number that may be absent, at two places.  What stands for an
absent number is not a number. -/
def gaugesMessage : MessageTree :=
  let number : Token :=
    { FrontEnd.optional "value" .double 0 with
      encoding :=
        { primitiveType := some .double, presence := .optional,
          nullValue := some (.float Binary64.nan) } }
  let gauge (offset : Int32) : TypeTree :=
    .composite ⟨{ signal := .beginComposite, name := "Gauge", offset, encodedLength := 8 }, rfl⟩
      [.encoding ⟨number, by decide⟩]
      ⟨{ signal := .endComposite, name := "Gauge", offset, encodedLength := 8 }, rfl⟩
  let field (name : String) (offset : Int32) : FieldTree :=
    ⟨⟨{ signal := .beginField, name, offset, encodedLength := 8 }, rfl⟩, gauge offset,
      ⟨{ signal := .endField, name, offset, encodedLength := 8 }, rfl⟩⟩
  ⟨⟨{ signal := .beginMessage, name := "Gauges", encodedLength := 16 }, rfl⟩,
    .block [field "left" 0, field "right" 8] [] [],
    ⟨{ signal := .endMessage, name := "Gauges", encodedLength := 16 }, rfl⟩⟩

/-- The second gauge is a conflict where none is allowed, and takes the place of the first one
otherwise. -/
theorem gauges_usedAgain_conflict :
    ∃ first second : List Token,
      heldTypes gaugesMessage.tokens = [("Gauge", first), ("Gauge", second)] ∧
        UsedAgain first second ∧ first ≠ second ∧
        (match strictDraft.addMessage 1 gaugesMessage.tokens with
          | .ok _ => none
          | .error problem => some problem) = some (.conflictingType "Gauge") ∧
        ((emptyDraft.addMessage 1 gaugesMessage.tokens).toOption.bind (·.types.get? "Gauge")) =
          some second := by
  refine ⟨(heldTypes gaugesMessage.tokens)[0]!.2, (heldTypes gaugesMessage.tokens)[1]!.2, ?_⟩
  decide +kernel

end WireSchema
