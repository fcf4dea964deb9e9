/-
Module: WireSchema.Proofs.BufferFaults
Purpose: A schema may leave open what a reader needs: a type, an offset, the value of a constant.
  Where it settles all of that, a message that a draft has stored is read for every buffer to the
  end or to an access outside the buffer (`decode_beyond`).  No other fault is left, wherever the
  message starts, whatever the version of the sender and the length of the root block are, and
  whatever the bytes say about the sizes of groups and of variable data.
Main exports: BlockTree.Settled, AccessError.IsBeyond, Walk.Within, decode_beyond
-/
import WireSchema.Proofs.OlderDecoding

namespace WireSchema

/-! ### What a schema settles -/

/-- Whether an encoding, an enum or a set stands at a fixed offset. -/
def Token.Placed (token : Token) : Prop :=
  token.signal = .encoding ∨ token.signal = .beginEnum ∨ token.signal = .beginSet →
    0 ≤ token.offset

instance : DecidablePred Token.Placed := fun token =>
  inferInstanceAs (Decidable (token.signal = .encoding ∨ token.signal = .beginEnum ∨
    token.signal = .beginSet → 0 ≤ token.offset))

/-- An integer at a fixed offset. -/
structure Token.IsCount (token : Token) : Prop where
  placed : 0 ≤ token.offset
  typed : token.encoding.primitiveType.isSome
  whole : token.encoding.primitiveType.any PrimitiveType.isFloat = false

instance : DecidablePred Token.IsCount := fun token =>
  decidable_of_iff (0 ≤ token.offset ∧ token.encoding.primitiveType.isSome ∧
      token.encoding.primitiveType.any PrimitiveType.isFloat = false)
    ⟨fun ⟨placed, typed, whole⟩ => ⟨placed, typed, whole⟩,
      fun ⟨placed, typed, whole⟩ => ⟨placed, typed, whole⟩⟩

/-- Dimensions of a fixed length, with two integers. -/
structure EncodingPair.IsGroupSize (tree : EncodingPair) : Prop where
  fixed : 0 ≤ tree.opening.1.encodedLength
  blockLength : tree.first.1.IsCount
  numInGroup : tree.second.1.IsCount

instance : DecidablePred EncodingPair.IsGroupSize := fun tree =>
  decidable_of_iff (0 ≤ tree.opening.1.encodedLength ∧ tree.first.1.IsCount ∧
      tree.second.1.IsCount)
    ⟨fun ⟨fixed, blockLength, numInGroup⟩ => ⟨fixed, blockLength, numInGroup⟩,
      fun ⟨fixed, blockLength, numInGroup⟩ => ⟨fixed, blockLength, numInGroup⟩⟩

/-- An integer for the length, and content at a fixed offset. -/
structure EncodingPair.IsContent (tree : EncodingPair) : Prop where
  length : tree.first.1.IsCount
  placed : 0 ≤ tree.second.1.offset

instance : DecidablePred EncodingPair.IsContent := fun tree =>
  decidable_of_iff (tree.first.1.IsCount ∧ 0 ≤ tree.second.1.offset)
    ⟨fun ⟨length, placed⟩ => ⟨length, placed⟩, fun ⟨length, placed⟩ => ⟨length, placed⟩⟩

mutual

/-- The dimensions of a group and of the groups in it. -/
def GroupTree.allDimensions : GroupTree → List EncodingPair
  | .group _ dimensions body _ => dimensions :: body.allDimensions

/-- The dimensions of groups, one group after another. -/
def GroupTree.listAllDimensions : List GroupTree → List EncodingPair
  | [] => []
  | group :: groups => group.allDimensions ++ GroupTree.listAllDimensions groups

/-- The dimensions of the groups in a body, at every depth. -/
def BlockTree.allDimensions : BlockTree → List EncodingPair
  | .block _ groups _ => GroupTree.listAllDimensions groups

end

mutual

/-- The variable data in a group, at every depth. -/
def GroupTree.allVarData : GroupTree → List VarDataTree
  | .group _ _ body _ => body.allVarData

/-- The variable data in groups, one group after another. -/
def GroupTree.listAllVarData : List GroupTree → List VarDataTree
  | [] => []
  | group :: groups => group.allVarData ++ GroupTree.listAllVarData groups

/-- The variable data in a body, at every depth. -/
def BlockTree.allVarData : BlockTree → List VarDataTree
  | .block _ groups varData => GroupTree.listAllVarData groups ++ varData

end

/-- A field that is complete and has all its values at fixed offsets. -/
structure FieldTree.Settled (tree : FieldTree) : Prop where
  complete : tree.Complete
  placed : ∀ token ∈ tree.type.tokens, token.Placed

instance : DecidablePred FieldTree.Settled := fun tree =>
  decidable_of_iff (tree.Complete ∧ ∀ token ∈ tree.type.tokens, token.Placed)
    ⟨fun ⟨complete, placed⟩ => ⟨complete, placed⟩, fun ⟨complete, placed⟩ => ⟨complete, placed⟩⟩

/-- A body that leaves nothing open but the bytes. -/
structure BlockTree.Settled (body : BlockTree) : Prop where
  fields : ∀ field ∈ body.allFields, field.Settled
  dimensions : ∀ dimensions ∈ body.allDimensions, dimensions.IsGroupSize
  varData : ∀ data ∈ body.allVarData, data.layout.IsContent

instance : DecidablePred BlockTree.Settled := fun body =>
  decidable_of_iff ((∀ field ∈ body.allFields, field.Settled) ∧
      (∀ dimensions ∈ body.allDimensions, dimensions.IsGroupSize) ∧
      ∀ data ∈ body.allVarData, data.layout.IsContent)
    ⟨fun ⟨fields, dimensions, varData⟩ => ⟨fields, dimensions, varData⟩,
      fun ⟨fields, dimensions, varData⟩ => ⟨fields, dimensions, varData⟩⟩

/-! ### Steps and walks that fail beyond the buffer only -/

/-- The fault of an access that does not lie inside a buffer. -/
def AccessError.IsBeyond (buffer : Buffer) (problem : AccessError) : Prop :=
  ∃ index width, problem = .outOfBounds index width buffer.size ∧ buffer.size < index + width

/-- A step that can only fail beyond a buffer. -/
def StepsWithin {α : Type} (buffer : Buffer) (step : Except AccessError α) : Prop :=
  ∀ problem, step = .error problem → problem.IsBeyond buffer

/-- A walk that can only fail beyond a buffer. -/
def Walk.Within {α : Type} (buffer : Buffer) (walk : Walk α) : Prop :=
  ∀ problem, walk.outcome = .error problem → problem.cause.IsBeyond buffer

variable {α β σ : Type} {buffer : Buffer}

namespace StepsWithin

theorem ok (result : α) : StepsWithin buffer (.ok result) :=
  fun _ failed => nomatch failed

theorem bind {step : Except AccessError α} {next : α → Except AccessError β}
    (first : StepsWithin buffer step)
    (second : ∀ result, step = .ok result → StepsWithin buffer (next result)) :
    StepsWithin buffer (step >>= next) := by
  intro problem failed
  cases step with
  | error found =>
      cases failed
      exact first _ rfl
  | ok result => exact second result rfl problem failed

end StepsWithin

namespace Walk.Within

theorem done (result : α) : Within buffer (Walk.done result) :=
  fun _ failed => nomatch failed

theorem emit (event : Event) : Within buffer (Walk.emit event) :=
  fun _ failed => nomatch failed

theorem check {step : Except AccessError α} (within : StepsWithin buffer step) :
    Within buffer (Walk.check step) := by
  intro problem failed
  cases step with
  | error found =>
      cases failed
      exact within _ rfl
  | ok result => cases failed

theorem bind {walk : Walk α} {next : α → Walk β} (first : Within buffer walk)
    (second : ∀ result, Within buffer (next result)) : Within buffer (walk >>= next) := by
  intro problem failed
  obtain ⟨events, outcome⟩ := walk
  cases outcome with
  | error found =>
      cases failed
      exact first _ rfl
  | ok result => exact second result problem failed

theorem bracket {inner : Walk α} (within : Within buffer inner) (opening closing : Event)
    (name : String) : Within buffer (Walk.bracket opening closing name inner) := by
  intro problem failed
  obtain ⟨events, outcome⟩ := inner
  cases outcome with
  | error found =>
      cases failed
      exact within found rfl
  | ok result => cases failed

theorem inTurn {step : Nat → σ → Walk σ} (each : ∀ index state, Within buffer (step index state))
    (count : Nat) :
    ∀ (index : Nat) (state : σ), Within buffer (Walk.inTurn step index count state) := by
  induction count with
  | zero => exact fun _ state => done state
  | succ count ih =>
      intro index state
      exact (each index state).bind fun next => ih (index + 1) next

end Walk.Within

/-! ### Reading scalars -/

theorem slice_within (buffer : Buffer) (index length : Nat) :
    StepsWithin buffer (slice buffer index length) := by
  intro problem failed
  rw [slice] at failed
  split at failed
  · cases failed
  · rename_i outside
    cases failed
    exact ⟨index, length, rfl, Nat.lt_of_not_le outside⟩

theorem readPrimitive_within (buffer : Buffer) (index : Nat) (type : PrimitiveType)
    (order : ByteOrder) : StepsWithin buffer (readPrimitive buffer index type order) :=
  (slice_within buffer index type.size).bind fun _ _ => .ok _

theorem readElements_within (source : Source) (type : PrimitiveType) (order : ByteOrder)
    (count : Nat) : ∀ (earlier : List Value) (position : Nat),
      StepsWithin source.buffer (readElements source type order earlier position count) := by
  induction count with
  | zero => exact fun earlier _ => .ok earlier.reverse
  | succ count ih =>
      intro earlier position problem failed
      rw [readElements] at failed
      split at failed
      · rename_i found isFound
        cases failed
        exact readPrimitive_within _ _ _ _ _ isFound
      · exact ih _ _ problem failed

theorem positionOf_within {token : Token} (placed : 0 ≤ token.offset) (base : Nat) :
    StepsWithin buffer (positionOf base token) := by
  obtain ⟨start, isStart⟩ := positionOf_of_nonneg placed base
  rw [isStart]
  exact .ok start

/-- A value that is not a floating point number can be taken as an integer. -/
theorem toUInt64?_valueOfWord {type : PrimitiveType} (whole : type.isFloat = false) (word : Nat) :
    ∃ number, (valueOfWord type word).toUInt64? = some number := by
  cases type <;> first | exact ⟨_, rfl⟩ | cases whole

theorem readUnsigned_within {token : Token} (isCount : token.IsCount) (buffer : Buffer)
    (index : Nat) : StepsWithin buffer (readUnsigned buffer index token) := by
  obtain ⟨_, typed, whole⟩ := isCount
  obtain ⟨type, isType⟩ := Option.isSome_iff_exists.mp typed
  rw [isType, Option.any_some] at whole
  simp only [readUnsigned, isType, whole, Bool.false_eq_true, if_false]
  refine (readPrimitive_within _ _ _ _).bind fun value isValue => ?_
  obtain ⟨bytes, _, isValue⟩ := ok_of_bind isValue
  cases isValue
  obtain ⟨number, isNumber⟩ := toUInt64?_valueOfWord whole
    (ofLittleEndian (ordered token.encoding.byteOrder bytes))
  rw [isNumber]
  exact .ok number

variable (source : Source)

theorem readValue_within (field : Token) {typeToken : Token}
    (typed : typeToken.encoding.primitiveType.isSome) (placed : 0 ≤ typeToken.offset)
    (base : Nat) : StepsWithin source.buffer (readValue source field typeToken base) := by
  obtain ⟨type, isType⟩ := Option.isSome_iff_exists.mp typed
  rw [readValue]
  split
  · exact .ok _
  · simp only [isType]
    split
    · exact .ok _
    · refine (positionOf_within placed base).bind fun position _ => ?_
      split
      · exact (slice_within _ _ _).bind fun _ _ => .ok _
      · exact (readElements_within _ _ _ _ _ _).bind fun _ _ => .ok _

/-- The one value left in the enum of a constant field is fixed. -/
theorem constantEnumValue_within {field : Token} {values : List Token} (valued : values ≠ [])
    (fixed : ∀ value ∈ values, value.encoding.constValue.isSome) :
    StepsWithin buffer (constantEnumValue field values) := by
  cases values with
  | nil => exact absurd rfl valued
  | cons first others =>
      obtain ⟨constant, isConstant⟩ :=
        Option.isSome_iff_exists.mp (fixed first List.mem_cons_self)
      rw [constantEnumValue, List.head?_cons, Option.bind_some, isConstant]
      exact .ok _

/-! ### Reading along the tree -/

theorem EnumTree.walk_within {field : Token} {tree : EnumTree}
    (complete : (TypeTree.enumeration tree).Complete) (placed : 0 ≤ tree.opening.1.offset)
    (valued : field.isConstant = true → tree.values ≠ []) (base : Nat) :
    (tree.walk source field base).Within source.buffer := by
  rw [TypeTree.Complete] at complete
  obtain ⟨typed, fixed⟩ := complete
  refine .bind (.check ?_) fun value => .emit _
  split
  · rename_i isConstant
    have nonempty : tree.values.map (·.1) ≠ [] := mt List.map_eq_nil_iff.mp (valued isConstant)
    refine constantEnumValue_within nonempty fun value member => ?_
    obtain ⟨kept, isKept, rfl⟩ := List.mem_map.mp member
    exact fixed kept isKept
  · exact readValue_within source field typed placed base

mutual

/-- A type is read within the buffer.  A constant field is around no composite, and takes the one
value of an enum. -/
theorem TypeTree.walk_within {field : Token} : ∀ tree : TypeTree, tree.Complete →
    (∀ token ∈ tree.tokens, token.Placed) →
    (field.isConstant = true → tree.isComposite = false) →
    (∀ enumTree, tree = .enumeration enumTree → field.isConstant = true →
      enumTree.values ≠ []) →
    ∀ base, (tree.walk source field base).Within source.buffer
  | .encoding leaf, complete, placed, _, _, base => by
      rw [TypeTree.Complete] at complete
      rw [TypeTree.tokens] at placed
      have here := placed _ List.mem_cons_self (.inl leaf.2.1)
      rw [TypeTree.walk]
      exact .bind (.check (readValue_within source field complete here base)) fun _ => .emit _
  | .enumeration tree, complete, placed, _, valued, base => by
      rw [TypeTree.tokens, EnumTree.tokens] at placed
      have here := placed _ List.mem_cons_self (.inr (.inl tree.opening.2))
      rw [TypeTree.walk]
      exact tree.walk_within source complete here (valued tree rfl) base
  | .set tree, complete, placed, _, _, base => by
      rw [TypeTree.Complete] at complete
      rw [TypeTree.tokens, SetTree.tokens] at placed
      have here := placed _ List.mem_cons_self (.inr (.inr tree.opening.2))
      rw [TypeTree.walk]
      exact .bind (.check (readValue_within source field complete here base)) fun _ => .emit _
  | .composite opening members closing, complete, placed, single, _, base => by
      rw [TypeTree.Complete] at complete
      rw [TypeTree.tokens] at placed
      have unfixed : field.isConstant ≠ true := fun isConstant => nomatch single isConstant
      have inside : ∀ token ∈ TypeTree.memberTokens members, token.Placed := fun token member =>
        placed token (List.mem_cons_of_mem _ (List.mem_append_left _ member))
      rw [TypeTree.walk]
      exact .bind (.check (positionOf_within complete.1 base)) fun start =>
        .bracket (TypeTree.walkMembers_within unfixed members complete.2 inside start) _ _ _

theorem TypeTree.walkMembers_within {field : Token} (unfixed : field.isConstant ≠ true) :
    ∀ members : List TypeTree, TypeTree.MembersComplete members →
      (∀ token ∈ TypeTree.memberTokens members, token.Placed) →
      ∀ start, (TypeTree.walkMembers source field start members).Within source.buffer
  | [], _, _, _ => by
      rw [TypeTree.walkMembers]
      exact .done ()
  | first :: others, complete, placed, start => by
      rw [TypeTree.MembersComplete] at complete
      rw [TypeTree.memberTokens, List.forall_mem_append] at placed
      rw [TypeTree.walkMembers]
      exact .bind
        (TypeTree.walk_within first complete.1 placed.1
          (fun isConstant => absurd isConstant unfixed)
          (fun _ _ isConstant => absurd isConstant unfixed) start)
        fun _ => TypeTree.walkMembers_within unfixed others complete.2 placed.2 start

end

theorem FieldTree.walkList_within (base : Nat) : ∀ fields : List FieldTree,
    (∀ field ∈ fields, field.Settled ∧ field.Valued) →
    (FieldTree.walkList source base fields).Within source.buffer
  | [], _ => .done ()
  | first :: others, settled => by
      rw [List.forall_mem_cons] at settled
      obtain ⟨⟨⟨⟨complete, single⟩, placed⟩, valued⟩, remaining⟩ := settled
      rw [FieldTree.walkList]
      exact .bind (first.type.walk_within source complete placed single valued base) fun _ =>
        FieldTree.walkList_within base others remaining

theorem VarDataTree.walk_within {tree : VarDataTree} (isContent : tree.layout.IsContent)
    (position : Nat) : (tree.walk source position).Within source.buffer := by
  have read : StepsWithin source.buffer (walkVarData.readVarData source position tree.opening
      tree.layout.first tree.layout.second) := by
    rw [walkVarData.readVarData]
    split
    · refine (positionOf_within isContent.length.placed position).bind fun lengthAt _ => ?_
      refine (readUnsigned_within isContent.length _ _).bind fun length _ => ?_
      refine (positionOf_within isContent.placed position).bind fun start _ => ?_
      exact (slice_within _ _ _).bind fun _ _ => .ok _
    · exact .ok _
  exact .bind (.check read) fun found => .bind (.emit _) fun _ => .done _

theorem VarDataTree.walkList_within : ∀ varData : List VarDataTree,
    (∀ data ∈ varData, data.layout.IsContent) →
    ∀ position, (VarDataTree.walkList source position varData).Within source.buffer
  | [], _, position => .done position
  | first :: others, isContent, position => by
      rw [List.forall_mem_cons] at isContent
      rw [VarDataTree.walkList]
      exact .bind (first.walk_within source isContent.1 position) fun next =>
        VarDataTree.walkList_within others isContent.2 next

/-- The sizes of a group are read within the buffer, and so many entries lie there or their lack
is noticed. -/
theorem readGroupSize_within (group : Token) {dimensions : EncodingPair}
    (isGroupSize : dimensions.IsGroupSize) (position : Nat) :
    StepsWithin source.buffer (readGroupSize source group dimensions.dimensions position) := by
  obtain ⟨fixed, blockLength, numInGroup⟩ := isGroupSize
  have notNegative : ¬ dimensions.opening.1.encodedLength < 0 := Int32.not_lt.mpr fixed
  have room : ∀ size : GroupSize, StepsWithin source.buffer
      (if source.buffer.size - size.start < min (size.count * size.blockLength) lastPosition then
        .error (.outOfBounds size.start (min (size.count * size.blockLength) lastPosition)
          source.buffer.size)
      else .ok size) := by
    intro size
    split
    · rename_i lacking
      intro problem failed
      cases failed
      exact ⟨_, _, rfl, by omega⟩
    · exact .ok size
  rw [readGroupSize]
  split
  · refine (positionOf_within blockLength.placed position).bind fun blockLengthAt _ => ?_
    refine (readUnsigned_within blockLength _ _).bind fun length _ => ?_
    refine (positionOf_within numInGroup.placed position).bind fun numInGroupAt _ => ?_
    refine (readUnsigned_within numInGroup _ _).bind fun count _ => ?_
    rw [EncodingPair.dimensions, fixedLength, if_neg notNegative]
    exact room _
  · exact room ⟨0, 0, position⟩

mutual

theorem GroupTree.walk_within : ∀ tree : GroupTree,
    (∀ field ∈ tree.allFields, field.Settled ∧ field.Valued) →
    (∀ dimensions ∈ tree.allDimensions, dimensions.IsGroupSize) →
    (∀ data ∈ tree.allVarData, data.layout.IsContent) →
    ∀ position, (tree.walk source position).Within source.buffer
  | .group opening dimensions body closing, fields, isGroupSize, isContent, position => by
      rw [GroupTree.allFields] at fields
      rw [GroupTree.allDimensions, List.forall_mem_cons] at isGroupSize
      rw [GroupTree.allVarData] at isContent
      rw [GroupTree.walk]
      refine .bind (.check (readGroupSize_within source opening isGroupSize.1 position))
        fun size => .bind (.emit _) fun _ => ?_
      exact .inTurn (fun entry start => .bracket
        (body.walk_within fields isGroupSize.2 isContent start size.blockLength) _ _ _) _ _ _

theorem GroupTree.walkList_within : ∀ groups : List GroupTree,
    (∀ field ∈ GroupTree.listAllFields groups, field.Settled ∧ field.Valued) →
    (∀ dimensions ∈ GroupTree.listAllDimensions groups, dimensions.IsGroupSize) →
    (∀ data ∈ GroupTree.listAllVarData groups, data.layout.IsContent) →
    ∀ position, (GroupTree.walkList source position groups).Within source.buffer
  | [], _, _, _, position => by
      rw [GroupTree.walkList]
      exact .done position
  | first :: others, fields, isGroupSize, isContent, position => by
      rw [GroupTree.listAllFields, List.forall_mem_append] at fields
      rw [GroupTree.listAllDimensions, List.forall_mem_append] at isGroupSize
      rw [GroupTree.listAllVarData, List.forall_mem_append] at isContent
      rw [GroupTree.walkList]
      exact .bind (first.walk_within fields.1 isGroupSize.1 isContent.1 position) fun next =>
        GroupTree.walkList_within others fields.2 isGroupSize.2 isContent.2 next

theorem BlockTree.walk_within : ∀ body : BlockTree,
    (∀ field ∈ body.allFields, field.Settled ∧ field.Valued) →
    (∀ dimensions ∈ body.allDimensions, dimensions.IsGroupSize) →
    (∀ data ∈ body.allVarData, data.layout.IsContent) →
    ∀ start blockLength, (body.walk source start blockLength).Within source.buffer
  | .block fields groups varData, settled, isGroupSize, isContent, start, blockLength => by
      rw [BlockTree.allFields, List.forall_mem_append] at settled
      rw [BlockTree.allDimensions] at isGroupSize
      rw [BlockTree.allVarData, List.forall_mem_append] at isContent
      rw [BlockTree.walk]
      exact .bind (FieldTree.walkList_within source start fields settled.1) fun _ =>
        .bind (GroupTree.walkList_within groups settled.2 isGroupSize isContent.1 _)
          fun position => VarDataTree.walkList_within source varData isContent.2 position

end

/-! ### Stored messages -/

/-- Where the schema settles what a reader needs, a stored message is read to its end or to an
access that does not lie inside the buffer.  No other fault is left to any bytes, to any position,
to any version of the sender, or to any length of the root block. -/
theorem decode_beyond {draft extended : SchemaDraft} {messageId : Int64}
    {message : MessageTree} (accepted : draft.addMessage messageId message.tokens = .ok extended)
    (countable : message.tokens.length < spanLimit)
    (settled : message.reduced.measured.body.Settled) :
    ∃ stored, extended.messages.get? messageId = some stored ∧
      stored = message.reduced.measured.tokens ∧
      ∀ (buffer : Buffer) (offset : Nat) (actingVersion : Int32) (blockLength : Nat),
        (∃ reached, (decode buffer offset actingVersion blockLength stored).outcome =
          .ok reached) ∨
        ∃ scope index width,
          (decode buffer offset actingVersion blockLength stored).outcome =
            .error ⟨scope, .outOfBounds index width buffer.size⟩ ∧
          buffer.size < index + width := by
  obtain ⟨resolved, isStored⟩ := SchemaDraft.addMessage_tokens accepted
  have spanned := SchemaDraft.spanned_of_addMessage accepted countable
  refine ⟨_, isStored, rfl, fun buffer offset actingVersion blockLength => ?_⟩
  have fields : ∀ field ∈ message.reduced.measured.body.allFields,
      field.Settled ∧ field.Valued := by
    intro field member
    refine ⟨settled.fields field member, ?_⟩
    rw [MessageTree.measured, MessageTree.reduced, BlockTree.allFields_measured,
      BlockTree.allFields_reduced, List.map_map] at member
    obtain ⟨source, sourceMember, rfl⟩ := List.mem_map.mp member
    exact (resolved source sourceMember).reduced.measured
  have within : (message.reduced.measured.walk ⟨buffer, actingVersion⟩ offset
      blockLength).Within buffer :=
    .bracket (BlockTree.walk_within _ _ fields settled.dimensions settled.varData _ _) _ _ _
  rw [decode_tokens spanned]
  cases outcome : (message.reduced.measured.walk ⟨buffer, actingVersion⟩ offset
      blockLength).outcome with
  | ok reached => exact .inl ⟨reached, rfl⟩
  | error problem =>
      obtain ⟨scope, cause⟩ := problem
      obtain ⟨index, width, isCause, beyond⟩ := within _ outcome
      cases isCause
      exact .inr ⟨scope, index, width, rfl, beyond⟩

/-- The order leaves nothing open but the bytes. -/
theorem decode_beyond_order :
    ∃ extended, emptyDraft.addMessage 1 orderMessage.tokens = .ok extended ∧
      orderMessage.tokens.length < spanLimit ∧ orderMessage.reduced.measured.body.Settled ∧
      ∃ stored, extended.messages.get? 1 = some stored ∧
        stored = orderMessage.reduced.measured.tokens ∧
        ∀ (buffer : Buffer) (offset : Nat) (actingVersion : Int32) (blockLength : Nat),
          (∃ reached, (decode buffer offset actingVersion blockLength stored).outcome =
            .ok reached) ∨
          ∃ scope index width,
            (decode buffer offset actingVersion blockLength stored).outcome =
              .error ⟨scope, .outOfBounds index width buffer.size⟩ ∧
            buffer.size < index + width := by
  obtain ⟨extended, accepted⟩ := orderMessage_accepted
  have countable : orderMessage.tokens.length < spanLimit := by decide
  have settled : orderMessage.reduced.measured.body.Settled := by decide +kernel
  exact ⟨extended, accepted, countable, settled, decode_beyond accepted countable settled⟩

end WireSchema
