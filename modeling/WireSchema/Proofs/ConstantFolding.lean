/-
Module: WireSchema.Proofs.ConstantFolding
Purpose: A constant field around an enum names one value of the enum.  What is stored of the enum is
  that value alone, so a reader takes the constant from the one value that it finds.  Here the two
  are put together: at every visit to such a field a reader is told the constant of the first value,
  among all that the schema gave, that the field names (`decode_constants`).  A constant encoding is
  told as the value that it carries itself.
Main exports: EnumTree.FirstNamed, FieldTree.ConstantsFixed, decode_constants
-/
import WireSchema.Proofs.FieldVisits
import WireSchema.Proofs.ReloadedMessage

namespace WireSchema

/-!
Neither depends on the bytes, on the version of the sender or on where the field stands.
-/

/-! ### Names of values -/

/-- A reference names a value, alone or after a dot. -/
def Names (reference name : String) : Prop :=
  reference = name ∨ ∃ qualifier, reference = qualifier ++ "." ++ name

theorem refersTo_iff (reference name : String) :
    refersTo reference name = true ↔ Names reference name := by
  rw [refersTo, Bool.and_eq_true, List.isSuffixOf_iff_suffix, Names]
  constructor
  · rintro ⟨⟨qualifier, whole⟩, bounded⟩
    have front : reference.toList.take (reference.toList.length - name.toList.length) =
        qualifier := by
      rw [← whole, List.length_append, Nat.add_sub_cancel, List.take_left]
    simp only [front] at bounded
    rw [Bool.or_eq_true, beq_iff_eq, beq_iff_eq] at bounded
    rcases bounded with rfl | dotted
    · exact .inl (String.toList_inj.mp whole.symm)
    · obtain ⟨start, rfl⟩ := List.getLast?_eq_some_iff.mp dotted
      refine .inr ⟨String.ofList start, String.toList_inj.mp ?_⟩
      rw [String.toList_append, String.toList_append, String.toList_ofList, ← whole]
      rfl
  · rintro (rfl | ⟨qualifier, rfl⟩)
    · exact ⟨List.suffix_rfl, by simp⟩
    · have whole : (qualifier ++ "." ++ name).toList =
          (qualifier.toList ++ ['.']) ++ name.toList := by
        rw [String.toList_append, String.toList_append]
        rfl
      rw [whole]
      refine ⟨List.suffix_append _ _, ?_⟩
      rw [List.length_append, Nat.add_sub_cancel, List.take_left]
      simp

/-- A value of an enum is the first one that a reference names. -/
def EnumTree.FirstNamed (tree : EnumTree) (reference : String) (value : TokenOf .validValue) :
    Prop :=
  ∃ before after, tree.values = before ++ value :: after ∧ Names reference value.1.name ∧
    ∀ earlier ∈ before, ¬ Names reference earlier.1.name

theorem EnumTree.firstNamed_of_referred {tree : EnumTree} {reference : String}
    {value : TokenOf .validValue} (isReferred : tree.referred? reference = some value) :
    tree.FirstNamed reference value := by
  obtain ⟨named, before, after, split, notBefore⟩ := List.find?_eq_some_iff_append.mp isReferred
  refine ⟨before, after, split, (refersTo_iff _ _).mp named, fun earlier member isNamed => ?_⟩
  have notNamed := notBefore earlier member
  rw [(refersTo_iff _ _).mpr isNamed] at notNamed
  cases notNamed

/-! ### Constant fields around an enum -/

/-- Only integers stand for the same integer as themselves. -/
theorem Value.sameInteger_self (value : Value) :
    value.sameInteger value = value.toUInt64?.isSome := by
  cases value <;> simp [Value.sameInteger, Value.toUInt64?]

/-- What is told about a constant field around an enum that was reduced to one of its values: that
value, whatever the bytes are. -/
theorem FieldTree.walk_constantEnum {opening : TokenOf .beginField} {tree : EnumTree}
    {closing : TokenOf .endField} {value : TokenOf .validValue} {constant : Value}
    (isConstant : opening.1.isConstant = true)
    (isReferred : tree.referred? (valueReference opening) = some value)
    (given : value.1.encoding.constValue = some constant) (source : Source) (base : Nat) :
    let stored := (FieldTree.mk opening (.enumeration tree) closing).reduced.measured
    stored.walk source base =
      Walk.emit (.enumeration stored.opening
        [(tree.opening.emptied.spanning 3).1, value.kept.1, (tree.closing.emptied.spanning 3).1]
        (.constant constant) (if constant.toUInt64?.isSome then some value.kept.1 else none)) := by
  have reduces : FieldTree.reducedType opening (.enumeration tree) =
      .enumeration (tree.reducedTo value) := by
    rw [FieldTree.reducedType, isReferred]
    exact if_pos isConstant
  have keptGiven : value.kept.1.encoding.constValue = some constant := given
  have found : constantEnumValue opening.1 [value.kept.1] = .ok (.constant constant) := by
    rw [constantEnumValue, List.head?_cons, Option.bind_some, keptGiven]
  have isMatched : matchedValue? [value.kept.1] (.constant constant) =
      if constant.toUInt64?.isSome then some value.kept.1 else none := by
    rw [matchedValue?, FieldValue.first?, Option.bind_some, List.find?_singleton, keptGiven]
    simp only [constant.sameInteger_self]
  intro stored
  have isStored : stored = ⟨opening.spanning 5, .enumeration (tree.reducedTo value).measured,
      closing.spanning 5⟩ := by
    change FieldTree.measured
      ⟨opening, FieldTree.reducedType opening (.enumeration tree), closing⟩ = _
    rw [reduces]
    rfl
  have stillConstant : (opening.spanning 5).1.isConstant = true := isConstant
  rw [isStored, FieldTree.walk, TypeTree.walk, EnumTree.walk]
  change (Walk.check (if (opening.spanning 5).1.isConstant = true then
    constantEnumValue (opening.spanning 5).1 [value.kept.1] else _) >>= _) = _
  rw [if_pos stillConstant]
  change (Walk.check (constantEnumValue opening.1 [value.kept.1]) >>= _) = _
  rw [found, Walk.check_ok_bind]
  change Walk.emit (.enumeration _ _ _ (matchedValue? [value.kept.1] (.constant constant))) = _
  rw [isMatched]
  rfl

/-! ### Constant encodings -/

mutual

/-- The encodings of a type. -/
def TypeTree.leaves : TypeTree → List EncodingLeaf
  | .encoding leaf => [leaf]
  | .enumeration _ | .set _ => []
  | .composite _ members _ => TypeTree.memberLeaves members

/-- The encodings of the members of a composite. -/
def TypeTree.memberLeaves : List TypeTree → List EncodingLeaf
  | [] => []
  | member :: members => member.leaves ++ TypeTree.memberLeaves members

end

mutual

theorem TypeTree.leaves_reduced : ∀ tree : TypeTree,
    tree.reduced.leaves = tree.leaves.map EncodingLeaf.reduced
  | .encoding leaf => rfl
  | .enumeration tree => rfl
  | .set tree => rfl
  | .composite opening members closing => by
      rw [TypeTree.reduced, TypeTree.leaves, TypeTree.leaves, TypeTree.memberLeaves_reduced members]

theorem TypeTree.memberLeaves_reduced : ∀ members : List TypeTree,
    TypeTree.memberLeaves (TypeTree.reducedMembers members) =
      (TypeTree.memberLeaves members).map EncodingLeaf.reduced
  | [] => rfl
  | member :: members => by
      rw [TypeTree.reducedMembers, TypeTree.memberLeaves, TypeTree.memberLeaves, List.map_append,
        member.leaves_reduced, TypeTree.memberLeaves_reduced members]

end

mutual

theorem TypeTree.leaves_measured : ∀ tree : TypeTree, tree.measured.leaves = tree.leaves
  | .encoding leaf => rfl
  | .enumeration tree => rfl
  | .set tree => rfl
  | .composite opening members closing => by
      rw [TypeTree.measured, TypeTree.leaves, TypeTree.leaves,
        TypeTree.memberLeaves_measured members]

theorem TypeTree.memberLeaves_measured : ∀ members : List TypeTree,
    TypeTree.memberLeaves (TypeTree.measuredMembers members) = TypeTree.memberLeaves members
  | [] => rfl
  | member :: members => by
      rw [TypeTree.measuredMembers, TypeTree.memberLeaves, TypeTree.memberLeaves,
        member.leaves_measured, TypeTree.memberLeaves_measured members]

end

/-- The encodings that are stored for a field. -/
theorem FieldTree.leaves_stored (field : FieldTree) :
    field.reduced.measured.type.leaves = field.type.leaves.map EncodingLeaf.reduced := by
  obtain ⟨opening, type, closing⟩ := field
  change (FieldTree.reducedType opening type).measured.leaves = _
  rw [TypeTree.leaves_measured]
  cases type with
  | encoding leaf => rfl
  | set tree => rfl
  | composite first members last => exact TypeTree.leaves_reduced _
  | enumeration tree =>
      rw [FieldTree.reducedType]
      cases tree.referred? (valueReference opening) with
      | none => rfl
      | some value => cases opening.1.isConstant <;> rfl

mutual

/-- What is told about an encoding of a type is a value that was read for it. -/
theorem TypeTree.read_of_encoding {source : Source} {field told token : Token}
    {value : FieldValue} : ∀ (tree : TypeTree) (base : Nat),
      .encoding told token value ∈ (tree.walk source field base).events →
      (∃ leaf ∈ tree.leaves, leaf.1 = token) ∧ ∃ base, readValue source field token base = .ok value
  | .encoding leaf, base, member => by
      rw [TypeTree.walk, Walk.mem_events_check_bind] at member
      obtain ⟨found, isRead, member⟩ := member
      cases Walk.mem_events_emit.mp member
      exact ⟨⟨leaf, List.mem_singleton.mpr rfl, rfl⟩, base, isRead⟩
  | .enumeration tree, base, member => by
      rw [TypeTree.walk, EnumTree.walk, Walk.mem_events_check_bind] at member
      obtain ⟨_, _, member⟩ := member
      cases Walk.mem_events_emit.mp member
  | .set tree, base, member => by
      rw [TypeTree.walk, SetTree.walk, Walk.mem_events_check_bind] at member
      obtain ⟨_, _, member⟩ := member
      cases Walk.mem_events_emit.mp member
  | .composite opening members closing, base, member => by
      rw [TypeTree.walk, Walk.mem_events_check_bind] at member
      obtain ⟨start, _, member⟩ := member
      rcases Walk.mem_events_bracket member with opens | inside | closes
      · cases opens
      · exact TypeTree.read_of_encoding_members members start inside
      · cases closes

theorem TypeTree.read_of_encoding_members {source : Source} {field told token : Token}
    {value : FieldValue} : ∀ (members : List TypeTree) (start : Nat),
      .encoding told token value ∈ (TypeTree.walkMembers source field start members).events →
      (∃ leaf ∈ TypeTree.memberLeaves members, leaf.1 = token) ∧
        ∃ base, readValue source field token base = .ok value
  | [], start, member => absurd member List.not_mem_nil
  | first :: others, start, member => by
      rw [TypeTree.walkMembers, Walk.mem_events_bind] at member
      rcases member with here | ⟨_, _, later⟩
      · obtain ⟨⟨leaf, isLeaf, same⟩, isRead⟩ := first.read_of_encoding start here
        exact ⟨⟨leaf, List.mem_append_left _ isLeaf, same⟩, isRead⟩
      · obtain ⟨⟨leaf, isLeaf, same⟩, isRead⟩ :=
          TypeTree.read_of_encoding_members others start later
        exact ⟨⟨leaf, List.mem_append_right _ isLeaf, same⟩, isRead⟩

end

/-- A constant with a value of its own is read as that value, whatever the bytes are. -/
theorem readValue_constant {token : Token} {constant : Value} (isConstant : token.isConstant = true)
    (given : token.encoding.constValue = some constant) (source : Source) (field : Token)
    (base : Nat) : readValue source field token base = .ok (.constant constant) := by
  have isFixed : constantOf? field token = some constant := by
    rw [constantOf?, isConstant, Bool.or_true, if_pos rfl, given]
    rfl
  rw [readValue, isFixed]

/-! ### Tokens of the parts of a message -/

mutual

theorem TypeTree.mem_tokens_of_leaf : ∀ tree : TypeTree, ∀ leaf ∈ tree.leaves, leaf.1 ∈ tree.tokens
  | .encoding leaf => fun other member => by
      rw [List.mem_singleton.mp member, TypeTree.tokens]
      exact List.mem_cons_self
  | .enumeration _ | .set _ => fun _ member => absurd member List.not_mem_nil
  | .composite opening members closing => fun leaf member => by
      rw [TypeTree.tokens]
      exact List.mem_cons_of_mem _
        (List.mem_append_left _ (TypeTree.mem_memberTokens_of_leaf members leaf member))

theorem TypeTree.mem_memberTokens_of_leaf : ∀ members : List TypeTree,
    ∀ leaf ∈ TypeTree.memberLeaves members, leaf.1 ∈ TypeTree.memberTokens members
  | [] => fun _ member => absurd member List.not_mem_nil
  | first :: others => fun leaf member => by
      rw [TypeTree.memberLeaves, List.mem_append] at member
      rw [TypeTree.memberTokens, List.mem_append]
      exact member.imp (first.mem_tokens_of_leaf leaf)
        (TypeTree.mem_memberTokens_of_leaf others leaf)

end

mutual

theorem GroupTree.tokens_subset : ∀ tree : GroupTree, ∀ field ∈ tree.allFields,
    field.tokens ⊆ tree.tokens
  | .group opening dimensions body closing => fun field member => by
      rw [GroupTree.allFields] at member
      rw [GroupTree.tokens]
      exact fun token inField => List.mem_cons_of_mem _ (List.mem_append_left _
        (List.mem_append_right _ (body.tokens_subset field member inField)))

theorem GroupTree.listTokens_subset : ∀ groups : List GroupTree,
    ∀ field ∈ GroupTree.listAllFields groups, field.tokens ⊆ GroupTree.listTokens groups
  | [] => fun _ member => by
      rw [GroupTree.listAllFields] at member
      cases member
  | first :: others => fun field member => by
      rw [GroupTree.listAllFields, List.mem_append] at member
      rw [GroupTree.listTokens]
      rcases member with inFirst | later
      · exact fun token inField =>
          List.mem_append_left _ (first.tokens_subset field inFirst inField)
      · exact fun token inField =>
          List.mem_append_right _ (GroupTree.listTokens_subset others field later inField)

theorem BlockTree.tokens_subset : ∀ tree : BlockTree, ∀ field ∈ tree.allFields,
    field.tokens ⊆ tree.tokens
  | .block fields groups varData => fun field member => by
      rw [BlockTree.allFields, List.mem_append] at member
      rw [BlockTree.tokens]
      rcases member with first | later
      · exact fun token inField =>
          List.mem_append_left _ (List.mem_flatMap.mpr ⟨field, first, inField⟩)
      · exact fun token inField => List.mem_append_right _ (List.mem_append_left _
          (GroupTree.listTokens_subset groups field later inField))

end

/-! ### Constants of a message -/

/-- What a reader is told about the constants of a field, wherever and whenever it reads the field:
the constant of the first value that a constant field around an enum names, and the own constants of
the encodings. -/
structure FieldTree.ConstantsFixed (field : FieldTree) : Prop where
  enumeration : ∀ tree, field.type = .enumeration tree → field.opening.1.isConstant = true →
    ∃ value constant, tree.FirstNamed (valueReference field.opening) value ∧
      value.1.encoding.constValue = some constant ∧
      ∀ source base, field.reduced.measured.walk source base =
        Walk.emit (.enumeration field.reduced.measured.opening
          [(tree.opening.emptied.spanning 3).1, value.kept.1, (tree.closing.emptied.spanning 3).1]
          (.constant constant) (if constant.toUInt64?.isSome then some value.kept.1 else none))
  encoding : ∀ leaf ∈ field.type.leaves, leaf.1.isConstant = true →
    ∃ constant, leaf.1.encoding.constValue = some constant ∧
      ∀ source told base, (TypeTree.encoding leaf.reduced).walk source told base =
        Walk.emit (.encoding told leaf.reduced (.constant constant))
  told : ∀ source base opening token value,
    .encoding opening token value ∈ (field.reduced.measured.walk source base).events →
      token.isConstant = true →
      ∃ leaf ∈ field.type.leaves, leaf.reduced.1 = token ∧
        ∃ constant, leaf.1.encoding.constValue = some constant ∧ value = .constant constant

/-- The constants of a field are fixed if every constant in it has a value and it names a value of
its enum. -/
theorem FieldTree.constantsFixed {field : FieldTree} (resolved : field.Resolved)
    (given : ∀ token ∈ field.tokens, token.ConstantGiven)
    (valued : ∀ token ∈ field.tokens, token.signal = .validValue →
      token.encoding.constValue ≠ none) : field.ConstantsFixed := by
  have inField : ∀ token ∈ field.type.tokens, token ∈ field.tokens := fun token member =>
    List.mem_cons_of_mem _ (List.mem_append_left _ member)
  have leafGiven : ∀ leaf ∈ field.type.leaves, leaf.1.isConstant = true →
      ∃ constant, leaf.1.encoding.constValue = some constant := fun leaf member isConstant =>
    Option.ne_none_iff_exists'.mp
      (given leaf.1 (inField _ (field.type.mem_tokens_of_leaf leaf member)) isConstant)
  have sameEncoding : ∀ leaf : EncodingLeaf, leaf.reduced.1.encoding = leaf.1.encoding :=
    fun leaf => encoding_emptiedConstant leaf.1
  refine ⟨fun tree isEnum isConstant => ?_, fun leaf member isConstant => ?_,
    fun source base opening token value member isConstant => ?_⟩
  · obtain ⟨opening, type, closing⟩ := field
    cases isEnum
    obtain ⟨value, isReferred⟩ := resolved tree rfl isConstant
    have inEnum : value ∈ tree.values := List.mem_of_find?_eq_some isReferred
    have isToken : value.1 ∈ tree.tokens :=
      List.mem_cons_of_mem _ (List.mem_append_left _ (List.mem_map_of_mem inEnum))
    obtain ⟨constant, isGiven⟩ :=
      Option.ne_none_iff_exists'.mp (valued value.1 (inField _ isToken) value.2)
    exact ⟨value, constant, EnumTree.firstNamed_of_referred isReferred, isGiven,
      FieldTree.walk_constantEnum isConstant isReferred isGiven⟩
  · obtain ⟨constant, isGiven⟩ := leafGiven leaf member isConstant
    refine ⟨constant, isGiven, fun source told base => ?_⟩
    rw [← sameEncoding leaf] at isGiven
    have stillConstant : leaf.reduced.1.isConstant = true := by
      rwa [Token.isConstant, sameEncoding leaf]
    rw [TypeTree.walk, readValue_constant stillConstant isGiven, Walk.check_ok_bind]
  · obtain ⟨⟨storedLeaf, isLeaf, rfl⟩, base, isRead⟩ := TypeTree.read_of_encoding _ base member
    rw [field.leaves_stored] at isLeaf
    obtain ⟨leaf, isSource, rfl⟩ := List.mem_map.mp isLeaf
    have constantBefore : leaf.1.isConstant = true := by
      rwa [Token.isConstant, ← sameEncoding leaf]
    obtain ⟨constant, isGiven⟩ := leafGiven leaf isSource constantBefore
    refine ⟨leaf, isSource, rfl, constant, isGiven, ?_⟩
    rw [← sameEncoding leaf] at isGiven
    rw [readValue_constant isConstant isGiven] at isRead
    exact (Except.ok.inj isRead).symm

/-- What a reader of an accepted message is told about fields is what it is told at its visits to
the stored fields, and at every visit the constants of a field are those that the schema gave.
Which fields are visited depends on the bytes; what is told about the constants does not. -/
theorem decode_constants {draft extended : SchemaDraft} {messageId : Int64} {message : MessageTree}
    (accepted : draft.addMessage messageId message.tokens = .ok extended)
    (countable : message.tokens.length < spanLimit)
    (valued : ∀ token ∈ message.tokens, token.signal = .validValue →
      token.encoding.constValue ≠ none) :
    (∃ stored, extended.messages.get? messageId = some stored ∧
      ∀ (buffer : Buffer) (offset : Nat) (actingVersion : Int32) (blockLength : Nat),
        let source : Source := ⟨buffer, actingVersion⟩
        let visits := message.reduced.measured.visits source offset blockLength
        (decode buffer offset actingVersion blockLength stored).events.filter Event.isOfField =
            visits.flatMap (Visit.events source) ∧
          ∀ visit ∈ visits, ∃ field ∈ message.body.allFields,
            visit.field = field.reduced.measured) ∧
      ∀ field ∈ message.body.allFields, field.ConstantsFixed := by
  obtain ⟨resolved, isStored⟩ := SchemaDraft.addMessage_tokens accepted
  obtain ⟨_, _, _, _, checked, _⟩ := SchemaDraft.addMessage_steps accepted
  rw [MessageTree.tokens, checkMessage_enclose message.opening.2 message.closing.2,
    checkConstants_eq_ok_iff] at checked
  have spanned := SchemaDraft.spanned_of_addMessage accepted countable
  constructor
  · refine ⟨_, isStored, fun buffer offset actingVersion blockLength =>
      ⟨?_, fun visit member => ?_⟩⟩
    · rw [decode_tokens spanned]
      exact MessageTree.told_visits _ _ offset blockLength
    · have isField := BlockTree.mem_allFields_of_visit _ member
      rw [MessageTree.measured, MessageTree.reduced, BlockTree.allFields_measured,
        BlockTree.allFields_reduced, List.map_map] at isField
      obtain ⟨field, isSource, same⟩ := List.mem_map.mp isField
      exact ⟨field, isSource, same.symm⟩
  · intro field member
    have inMessage : ∀ token ∈ field.tokens, token ∈ message.tokens := fun token inField =>
      List.mem_cons_of_mem _
        (List.mem_append_left _ (message.body.tokens_subset field member inField))
    exact FieldTree.constantsFixed (resolved field member)
      (fun token inField => checked token (inMessage token inField))
      (fun token inField => valued token (inMessage token inField))

/-- An order, its fixed side reduced to the second of two values. -/
theorem decode_constants_order :
    ∃ extended, emptyDraft.addMessage 1 orderMessage.tokens = .ok extended ∧
      orderMessage.tokens.length < spanLimit ∧
      (∀ token ∈ orderMessage.tokens, token.signal = .validValue →
        token.encoding.constValue ≠ none) ∧
      ∀ field ∈ orderMessage.body.allFields, field.ConstantsFixed := by
  obtain ⟨extended, accepted⟩ := orderMessage_accepted
  have countable : orderMessage.tokens.length < spanLimit := by decide
  have valued : ∀ token ∈ orderMessage.tokens, token.signal = .validValue →
      token.encoding.constValue ≠ none := by decide +kernel
  exact ⟨extended, accepted, countable, valued, (decode_constants accepted countable valued).2⟩

end WireSchema
