/-
Module: WireSchema.Proofs.OlderDecoding
Purpose: Reading a message along all of its tokens is reading what the producer knew, with an
  absence for every construct that came in later; reading it along the tokens of the tree without
  those constructs is the same without the absences.  Neither the outcome nor any position depends
  on them.
Main exports: TypeTree.Complete, FieldTree.Foreseen, decode_olderProducer
-/
import Mathlib.Data.List.Flatten
import WireSchema.Proofs.OlderProducer
import WireSchema.Proofs.StoredMessage

namespace WireSchema

/-! ### Absent fields -/

mutual

/-- A type is complete if its composites start at a position, every value has a primitive type, and
the values of its enums are fixed. -/
def TypeTree.Complete : TypeTree → Prop
  | .encoding leaf => leaf.1.encoding.primitiveType.isSome
  | .enumeration tree =>
    tree.opening.1.encoding.primitiveType.isSome ∧
      ∀ value ∈ tree.values, value.1.encoding.constValue.isSome
  | .set tree => tree.opening.1.encoding.primitiveType.isSome
  | .composite opening members _ => 0 ≤ opening.1.offset ∧ TypeTree.MembersComplete members

/-- The same for the members of a composite. -/
def TypeTree.MembersComplete : List TypeTree → Prop
  | [] => True
  | member :: members => member.Complete ∧ TypeTree.MembersComplete members

end

mutual

/-- Whether a type is complete. -/
def TypeTree.decideComplete : ∀ tree : TypeTree, Decidable tree.Complete
  | .encoding leaf =>
    decidable_of_iff (leaf.1.encoding.primitiveType.isSome = true) (by rw [TypeTree.Complete])
  | .enumeration tree =>
    decidable_of_iff (tree.opening.1.encoding.primitiveType.isSome = true ∧
      ∀ value ∈ tree.values, value.1.encoding.constValue.isSome) (by rw [TypeTree.Complete])
  | .set tree =>
    decidable_of_iff (tree.opening.1.encoding.primitiveType.isSome = true)
      (by rw [TypeTree.Complete])
  | .composite opening members _ =>
    have := TypeTree.decideMembersComplete members
    decidable_of_iff (0 ≤ opening.1.offset ∧ TypeTree.MembersComplete members)
      (by rw [TypeTree.Complete])

/-- Whether the members of a composite are complete. -/
def TypeTree.decideMembersComplete : ∀ members : List TypeTree,
    Decidable (TypeTree.MembersComplete members)
  | [] => .isTrue (by rw [TypeTree.MembersComplete]; trivial)
  | member :: members =>
    have := member.decideComplete
    have := TypeTree.decideMembersComplete members
    decidable_of_iff (member.Complete ∧ TypeTree.MembersComplete members)
      (by rw [TypeTree.MembersComplete])

end

instance : DecidablePred TypeTree.Complete := TypeTree.decideComplete

/-- Whether the type is a composite. -/
def TypeTree.isComposite : TypeTree → Bool
  | .composite _ _ _ => true
  | _ => false

/-- A field is complete if its type is, and it is not constant around a composite. -/
def FieldTree.Complete (tree : FieldTree) : Prop :=
  tree.type.Complete ∧ (tree.opening.1.isConstant = true → tree.type.isComposite = false)

instance : DecidablePred FieldTree.Complete := fun tree =>
  inferInstanceAs (Decidable (tree.type.Complete ∧
    (tree.opening.1.isConstant = true → tree.type.isComposite = false)))

/-- Whether a field that is constant and wraps an enum has a value to take. -/
def FieldTree.Valued (tree : FieldTree) : Prop :=
  ∀ enumTree, tree.type = .enumeration enumTree → tree.opening.1.isConstant = true →
    enumTree.values ≠ []

theorem lt_max_of_lt {least first : Int32} (below : least < first) (second : Int32) :
    least < max first second := by
  by_cases order : first ≤ second
  · rw [show max first second = second from if_pos order]
    exact Int32.lt_of_lt_of_le below order
  · rwa [show max first second = first from if_neg order]

/-- A value that came in later is not read. -/
theorem readValue_newer {source : Source} {field typeToken : Token}
    (newer : field.isNewer source.actingVersion = true)
    (typed : typeToken.encoding.primitiveType.isSome) (base : Nat) :
    readValue source field typeToken base = .ok (absentValue field typeToken) := by
  obtain ⟨type, isType⟩ := Option.isSome_iff_exists.mp typed
  have later : source.actingVersion < max field.version typeToken.version :=
    lt_max_of_lt (of_decide_eq_true newer) _
  rw [readValue, absentValue]
  cases constantOf? field typeToken with
  | some value => rfl
  | none =>
      simp only [isType, if_pos later, Encoding.applicableNull]
      cases typeToken.encoding.nullValue <;> rfl

theorem positionOf_of_nonneg {token : Token} (fixed : 0 ≤ token.offset) (base : Nat) :
    ∃ start, positionOf base token = .ok start := by
  have notNegative : ¬ token.offset < 0 := Int32.not_lt.mpr fixed
  rw [positionOf, fixedOffset, if_neg notNegative]
  exact ⟨_, rfl⟩

theorem Walk.deliver_bind {α : Type} (events : List Event) (next : Unit → Walk α) :
    Walk.deliver events >>= next =
      ⟨events ++ (next ()).events, (next ()).outcome⟩ :=
  rfl

theorem EnumTree.walk_newer {source : Source} {field : Token} {tree : EnumTree}
    (newer : field.isNewer source.actingVersion = true)
    (complete : (TypeTree.enumeration tree).Complete)
    (valued : field.isConstant = true → tree.values ≠ []) (base : Nat) :
    tree.walk source field base =
      Walk.deliver ((TypeTree.enumeration tree).absence field) := by
  rw [TypeTree.Complete] at complete
  obtain ⟨typed, fixed⟩ := complete
  have value : (if field.isConstant then constantEnumValue field (tree.values.map (·.1))
      else readValue source field tree.opening base) = .ok (tree.absentValue field) := by
    rw [EnumTree.absentValue]
    split
    · next isConstant =>
        cases shape : tree.values with
        | nil => exact absurd shape (valued isConstant)
        | cons first others =>
            have isFixed := fixed first (by rw [shape]; exact List.mem_cons_self)
            obtain ⟨constant, isConstant⟩ := Option.isSome_iff_exists.mp isFixed
            simp [constantEnumValue, isConstant]
    · exact readValue_newer newer typed base
  rw [EnumTree.walk, value, TypeTree.absence]
  rfl

mutual

/-- The type of a field that came in later delivers its absence and reads nothing. -/
theorem TypeTree.walk_newer {source : Source} {field : Token}
    (newer : field.isNewer source.actingVersion = true) (notConstant : field.isConstant = false) :
    ∀ tree : TypeTree, tree.Complete → ∀ base,
      tree.walk source field base = Walk.deliver (tree.absence field)
  | .encoding leaf, complete, base => by
      rw [TypeTree.Complete] at complete
      rw [TypeTree.walk, readValue_newer newer complete, TypeTree.absence]
      rfl
  | .enumeration tree, complete, base => by
      rw [TypeTree.walk]
      apply EnumTree.walk_newer newer complete
      intro isConstant
      rw [isConstant] at notConstant
      cases notConstant
  | .set tree, complete, base => by
      rw [TypeTree.Complete] at complete
      rw [TypeTree.walk, SetTree.walk, readValue_newer newer complete, TypeTree.absence]
      rfl
  | .composite opening members closing, complete, base => by
      rw [TypeTree.Complete] at complete
      obtain ⟨start, isStart⟩ := positionOf_of_nonneg complete.1 base
      rw [TypeTree.walk, isStart, TypeTree.absence,
        show (Walk.check (.ok start) >>= _) = _ from Walk.check_ok_bind start _,
        TypeTree.walkMembers_newer newer notConstant members complete.2]
      rfl

/-- The same for the members of a composite. -/
theorem TypeTree.walkMembers_newer {source : Source} {field : Token}
    (newer : field.isNewer source.actingVersion = true) (notConstant : field.isConstant = false) :
    ∀ members : List TypeTree, TypeTree.MembersComplete members → ∀ start,
      TypeTree.walkMembers source field start members =
        Walk.deliver (TypeTree.memberAbsences field members)
  | [], _, start => by
      rw [TypeTree.walkMembers, TypeTree.memberAbsences]
      rfl
  | member :: members, complete, start => by
      rw [TypeTree.MembersComplete] at complete
      rw [TypeTree.walkMembers, TypeTree.memberAbsences,
        member.walk_newer newer notConstant complete.1,
        TypeTree.walkMembers_newer newer notConstant members complete.2, Walk.deliver_bind]
      rfl

end

/-- A field that came in later delivers its absence and reads nothing. -/
theorem FieldTree.walk_newer {source : Source} {tree : FieldTree}
    (newer : tree.opening.1.isNewer source.actingVersion = true) (complete : tree.Complete)
    (valued : tree.Valued) (base : Nat) :
    tree.walk source base = Walk.deliver tree.absence := by
  obtain ⟨opening, type, closing⟩ := tree
  obtain ⟨typeComplete, constant⟩ := complete
  rw [FieldTree.walk, FieldTree.absence]
  cases isConstant : opening.1.isConstant with
  | false => exact TypeTree.walk_newer newer isConstant type typeComplete base
  | true =>
      cases type with
      | encoding leaf =>
          rw [TypeTree.Complete] at typeComplete
          rw [TypeTree.walk, readValue_newer newer typeComplete, TypeTree.absence]
          rfl
      | enumeration tree =>
          rw [TypeTree.walk]
          exact EnumTree.walk_newer newer typeComplete (valued tree rfl) base
      | set tree =>
          rw [TypeTree.Complete] at typeComplete
          rw [TypeTree.walk, SetTree.walk, readValue_newer newer typeComplete, TypeTree.absence]
          rfl
      | composite first members last => cases constant isConstant

/-! ### Absent variable data and groups -/

theorem VarDataTree.walk_newer {source : Source} {tree : VarDataTree}
    (newer : tree.opening.1.isNewer source.actingVersion = true) (position : Nat) :
    tree.walk source position = ⟨[tree.absence], .ok position⟩ := by
  have later : ¬ tree.opening.1.version ≤ source.actingVersion :=
    Int32.not_le.mpr (of_decide_eq_true newer)
  rw [VarDataTree.walk, walkVarData.readVarData, if_neg later]
  rfl

/-- A group that came in later has no entries, and the position does not move. -/
theorem readGroupSize_newer {source : Source} {opening : Token}
    (newer : opening.isNewer source.actingVersion = true) (dimensions : Dimensions)
    (position : Nat) :
    readGroupSize source opening dimensions position = .ok ⟨0, 0, position⟩ := by
  have later : ¬ opening.version ≤ source.actingVersion :=
    Int32.not_le.mpr (of_decide_eq_true newer)
  simp [readGroupSize, if_neg later, bind, Except.bind]

theorem GroupTree.walk_newer {source : Source} : ∀ {tree : GroupTree},
    tree.opening.1.isNewer source.actingVersion = true → ∀ position,
      tree.walk source position = ⟨[.groupHeader tree.opening 0], .ok position⟩
  | .group opening dimensions body closing, newer, position => by
      rw [GroupTree.opening] at newer ⊢
      rw [GroupTree.walk, readGroupSize_newer newer]
      rfl

/-! ### Reading with absences -/

/-- What makes every absence of a field known. -/
def FieldTree.Foreseen (tree : FieldTree) : Prop :=
  tree.Complete ∧ tree.Valued

theorem FieldTree.walkList_eq_asOf (source : Source) (base : Nat) {fields : List FieldTree}
    (foreseen : ∀ field ∈ fields, field.Foreseen) :
    FieldTree.walkList source base fields =
      FieldTree.walkListAsOf source true base fields := by
  induction fields with
  | nil => rfl
  | cons field fields ih =>
      have remaining := ih fun other member => foreseen other (List.mem_cons_of_mem field member)
      obtain ⟨complete, valued⟩ := foreseen field List.mem_cons_self
      rw [FieldTree.walkList, FieldTree.walkListAsOf, remaining]
      cases newer : field.opening.1.isNewer source.actingVersion with
      | false => rfl
      | true =>
          rw [FieldTree.walk_newer newer complete valued]
          rfl

theorem VarDataTree.walkList_eq_asOf (source : Source) : ∀ (varData : List VarDataTree)
    (position : Nat),
      VarDataTree.walkList source position varData =
        VarDataTree.walkListAsOf source true position varData
  | [], position => rfl
  | data :: others, position => by
      rw [VarDataTree.walkList, VarDataTree.walkListAsOf]
      simp only [VarDataTree.walkList_eq_asOf source others]
      cases newer : data.opening.1.isNewer source.actingVersion with
      | false => rfl
      | true =>
          rw [VarDataTree.walk_newer newer]
          rfl

mutual

theorem GroupTree.walk_eq_asOf (source : Source) : ∀ tree : GroupTree,
    (∀ field ∈ tree.allFields, field.Foreseen) → ∀ position,
      tree.walk source position = tree.walkAsOf source true position
  | .group opening dimensions body closing, foreseen, position => by
      rw [GroupTree.allFields] at foreseen
      have entry := body.walk_eq_asOf source foreseen
      rw [GroupTree.walk, GroupTree.walkAsOf]
      simp only [entry]

theorem GroupTree.walkList_eq_asOf (source : Source) : ∀ groups : List GroupTree,
    (∀ field ∈ GroupTree.listAllFields groups, field.Foreseen) → ∀ position,
      GroupTree.walkList source position groups =
        GroupTree.walkListAsOf source true position groups
  | [], _, position => by
      rw [GroupTree.walkList, GroupTree.walkListAsOf]
  | first :: others, foreseen, position => by
      rw [GroupTree.listAllFields, List.forall_mem_append] at foreseen
      have remaining := GroupTree.walkList_eq_asOf source others foreseen.2
      rw [GroupTree.walkList, GroupTree.walkListAsOf]
      simp only [remaining]
      cases newer : first.opening.1.isNewer source.actingVersion with
      | false =>
          rw [first.walk_eq_asOf source foreseen.1]
          rfl
      | true =>
          rw [GroupTree.walk_newer newer]
          rfl

/-- A reader of a block passes over what the producer did not know, and tells of its absence. -/
theorem BlockTree.walk_eq_asOf (source : Source) : ∀ body : BlockTree,
    (∀ field ∈ body.allFields, field.Foreseen) → ∀ start blockLength,
      body.walk source start blockLength = body.walkAsOf source true start blockLength
  | .block fields groups varData, foreseen, start, blockLength => by
      rw [BlockTree.allFields, List.forall_mem_append] at foreseen
      have groupsRead := GroupTree.walkList_eq_asOf source groups foreseen.2
      rw [BlockTree.walk, BlockTree.walkAsOf, FieldTree.walkList_eq_asOf source start foreseen.1]
      simp only [groupsRead, VarDataTree.walkList_eq_asOf source varData]

end

theorem MessageTree.walk_eq_asOf (source : Source) {tree : MessageTree}
    (foreseen : ∀ field ∈ tree.body.allFields, field.Foreseen) (offset blockLength : Nat) :
    tree.walk source offset blockLength = tree.walkAsOf source true offset blockLength := by
  rw [MessageTree.walk, MessageTree.walkAsOf, BlockTree.walk_eq_asOf source tree.body foreseen]

/-! ### Reading without absences -/

/-- The event without the span of a message or a group, which counts what is inside. -/
def Event.unspanned : Event → Event
  | .beginMessage token => .beginMessage (token.withSpan 0)
  | .endMessage token => .endMessage (token.withSpan 0)
  | .groupHeader token count => .groupHeader (token.withSpan 0) count
  | .beginGroup token index count => .beginGroup (token.withSpan 0) index count
  | .endGroup token index count => .endGroup (token.withSpan 0) index count
  | event => event

/-- The fields that are left are as they were. -/
theorem FieldTree.walkList_asOf (source : Source) (base : Nat) : ∀ fields : List FieldTree,
    FieldTree.walkList source base
        (((fields.map FieldTree.measured).filter fun field =>
          !field.opening.1.isNewer source.actingVersion).map FieldTree.measured) =
      FieldTree.walkListAsOf source false base (fields.map FieldTree.measured)
  | [] => rfl
  | field :: fields => by
      have remaining := FieldTree.walkList_asOf source base fields
      rw [List.map_cons, List.filter_cons, FieldTree.walkListAsOf]
      cases newer : field.measured.opening.1.isNewer source.actingVersion with
      | false =>
          rw [← remaining]
          simp only [Bool.not_false, if_true, List.map_cons, field.measured_measured]
          rfl
      | true =>
          rw [← remaining]
          rfl

theorem VarDataTree.walkList_asOf (source : Source) : ∀ (varData : List VarDataTree)
    (position : Nat),
      VarDataTree.walkList source position
          (((varData.map VarDataTree.measured).filter fun data =>
            !data.opening.1.isNewer source.actingVersion).map VarDataTree.measured) =
        VarDataTree.walkListAsOf source false position (varData.map VarDataTree.measured)
  | [], position => rfl
  | data :: others, position => by
      have remaining := VarDataTree.walkList_asOf source others
      rw [List.map_cons, List.filter_cons, VarDataTree.walkListAsOf]
      simp only [← remaining]
      cases newer : data.measured.opening.1.isNewer source.actingVersion with
      | false =>
          simp only [Bool.not_false, if_true, List.map_cons, data.measured_measured]
          rfl
      | true => rfl

mutual

theorem GroupTree.walk_asOf (source : Source) : ∀ (tree : GroupTree) (position : Nat),
    ((tree.measured.asOf source.actingVersion).measured.walk source position).mapEvents
        Event.unspanned =
      (tree.measured.walkAsOf source false position).mapEvents Event.unspanned
  | .group opening dimensions body closing, position => by
      have entry := body.walk_asOf source
      rw [GroupTree.measured, GroupTree.asOf, GroupTree.measured, GroupTree.walk,
        GroupTree.walkAsOf]
      simp only [Walk.mapEvents_bind, Walk.mapEvents_inTurn, Walk.mapEvents_bracket, entry]
      rfl

theorem GroupTree.walkList_asOf (source : Source) : ∀ (groups : List GroupTree) (position : Nat),
    (GroupTree.walkList source position (GroupTree.measuredList
        (GroupTree.listAsOf source.actingVersion (GroupTree.measuredList groups)))).mapEvents
        Event.unspanned =
      (GroupTree.walkListAsOf source false position (GroupTree.measuredList groups)).mapEvents
        Event.unspanned
  | [], position => by
      rw [GroupTree.measuredList, GroupTree.listAsOf, GroupTree.measuredList, GroupTree.walkList,
        GroupTree.walkListAsOf]
  | first :: others, position => by
      have remaining := GroupTree.walkList_asOf source others
      have known := first.walk_asOf source
      rw [GroupTree.measuredList, GroupTree.listAsOf, GroupTree.walkListAsOf]
      cases newer : first.measured.opening.1.isNewer source.actingVersion with
      | false =>
          simp only [Bool.false_eq_true, if_false, GroupTree.measuredList, GroupTree.walkList,
            Walk.mapEvents_bind, known, remaining]
      | true =>
          simp only [if_true, remaining, Walk.mapEvents_bind]
          rfl

/-- The block without what the producer did not know is read like the whole one, absences left
out. -/
theorem BlockTree.walk_asOf (source : Source) : ∀ (body : BlockTree) (start blockLength : Nat),
    ((body.measured.asOf source.actingVersion).measured.walk source start blockLength).mapEvents
        Event.unspanned =
      (body.measured.walkAsOf source false start blockLength).mapEvents Event.unspanned
  | .block fields groups varData, start, blockLength => by
      have groupsRead := GroupTree.walkList_asOf source groups
      rw [BlockTree.measured, BlockTree.asOf, BlockTree.measured, BlockTree.walk,
        BlockTree.walkAsOf, FieldTree.walkList_asOf]
      simp only [Walk.mapEvents_bind, groupsRead, VarDataTree.walkList_asOf]

end

theorem MessageTree.walk_asOf (source : Source) (tree : MessageTree) (offset blockLength : Nat) :
    ((tree.measured.asOf source.actingVersion).measured.walk source offset blockLength).mapEvents
        Event.unspanned =
      (tree.measured.walkAsOf source false offset blockLength).mapEvents Event.unspanned := by
  rw [MessageTree.walk, MessageTree.walkAsOf, Walk.mapEvents_bracket, Walk.mapEvents_bracket]
  have body := tree.body.walk_asOf source offset blockLength
  rw [MessageTree.measured, MessageTree.asOf, MessageTree.measured]
  simp only [body]
  rfl

/-! ### The two readings compared -/

theorem FieldTree.omits_asOf (source : Source) (base : Nat) : ∀ fields : List FieldTree,
    Walk.Omits (FieldTree.walkListAsOf source false base fields)
      (FieldTree.walkListAsOf source true base fields)
  | [] => .refl _
  | field :: fields => by
      have remaining := FieldTree.omits_asOf source base fields
      rw [FieldTree.walkListAsOf, FieldTree.walkListAsOf]
      cases field.opening.1.isNewer source.actingVersion with
      | false => exact (Walk.Omits.refl _).bind fun _ => remaining
      | true =>
          have absence : Walk.Omits (Walk.deliver []) (Walk.deliver field.absence) :=
            ⟨rfl, List.nil_sublist _⟩
          exact absence.bind fun _ => remaining

theorem VarDataTree.omits_asOf (source : Source) : ∀ (varData : List VarDataTree)
    (position : Nat),
      Walk.Omits (VarDataTree.walkListAsOf source false position varData)
        (VarDataTree.walkListAsOf source true position varData)
  | [], _ => .refl _
  | data :: others, position => by
      have remaining := VarDataTree.omits_asOf source others
      rw [VarDataTree.walkListAsOf, VarDataTree.walkListAsOf]
      cases data.opening.1.isNewer source.actingVersion with
      | false => exact (Walk.Omits.refl _).bind fun next => remaining next
      | true =>
          have absence : Walk.Omits (Walk.deliver []) (Walk.deliver [data.absence]) :=
            ⟨rfl, List.nil_sublist _⟩
          exact absence.bind fun _ => remaining position

mutual

theorem GroupTree.omits_asOf (source : Source) : ∀ (tree : GroupTree) (position : Nat),
    Walk.Omits (tree.walkAsOf source false position) (tree.walkAsOf source true position)
  | .group opening dimensions body closing, position => by
      have entry := body.omits_asOf source
      rw [GroupTree.walkAsOf, GroupTree.walkAsOf]
      refine (Walk.Omits.refl _).bind fun size => (Walk.Omits.refl _).bind fun _ => ?_
      apply Walk.Omits.inTurn
      intro index start
      exact (entry start size.blockLength).bracket _ _ _

theorem GroupTree.listOmits_asOf (source : Source) : ∀ (groups : List GroupTree)
    (position : Nat),
      Walk.Omits (GroupTree.walkListAsOf source false position groups)
        (GroupTree.walkListAsOf source true position groups)
  | [], _ => by
      rw [GroupTree.walkListAsOf, GroupTree.walkListAsOf]
      exact .refl _
  | first :: others, position => by
      have remaining := GroupTree.listOmits_asOf source others
      rw [GroupTree.walkListAsOf, GroupTree.walkListAsOf]
      cases first.opening.1.isNewer source.actingVersion with
      | false => exact (first.omits_asOf source position).bind fun next => remaining next
      | true =>
          have absence : Walk.Omits (Walk.deliver [])
              (Walk.deliver [.groupHeader first.opening 0]) :=
            ⟨rfl, List.nil_sublist _⟩
          exact absence.bind fun _ => remaining position

/-- Without the absences a block is read with the same outcome. -/
theorem BlockTree.omits_asOf (source : Source) : ∀ (body : BlockTree) (start blockLength : Nat),
    Walk.Omits (body.walkAsOf source false start blockLength)
      (body.walkAsOf source true start blockLength)
  | .block fields groups varData, start, blockLength => by
      rw [BlockTree.walkAsOf, BlockTree.walkAsOf]
      exact (FieldTree.omits_asOf source start fields).bind fun _ =>
        (GroupTree.listOmits_asOf source groups (advance start blockLength)).bind fun position =>
          VarDataTree.omits_asOf source varData position

end

theorem MessageTree.omits_asOf (source : Source) (tree : MessageTree) (offset blockLength : Nat) :
    Walk.Omits (tree.walkAsOf source false offset blockLength)
      (tree.walkAsOf source true offset blockLength) :=
  (tree.body.omits_asOf source offset blockLength).bracket _ _ _

/-! ### Stored messages -/

theorem FieldTree.Resolved.reduced {tree : FieldTree} (resolved : tree.Resolved) :
    tree.reduced.Valued := by
  obtain ⟨opening, type, closing⟩ := tree
  intro enumTree isEnum isConstant
  cases type with
  | encoding leaf => simp [FieldTree.reduced, FieldTree.reducedType, TypeTree.reduced] at isEnum
  | set tree => simp [FieldTree.reduced, FieldTree.reducedType, TypeTree.reduced] at isEnum
  | composite first members last =>
      simp [FieldTree.reduced, FieldTree.reducedType, TypeTree.reduced] at isEnum
  | enumeration tree =>
      obtain ⟨value, named⟩ := resolved tree rfl isConstant
      replace isConstant : opening.1.isConstant = true := isConstant
      rw [FieldTree.reduced, FieldTree.reducedType] at isEnum
      simp only [named, isConstant, if_true, TypeTree.enumeration.injEq] at isEnum
      subst isEnum
      exact List.cons_ne_nil _ _

theorem FieldTree.Valued.measured {tree : FieldTree} (valued : tree.Valued) :
    tree.measured.Valued := by
  obtain ⟨opening, type, closing⟩ := tree
  intro enumTree isEnum isConstant
  cases type with
  | encoding leaf => simp [FieldTree.measured, TypeTree.measured] at isEnum
  | set tree => simp [FieldTree.measured, TypeTree.measured] at isEnum
  | composite first members last => simp [FieldTree.measured, TypeTree.measured] at isEnum
  | enumeration tree =>
      simp only [FieldTree.measured, TypeTree.measured, TypeTree.enumeration.injEq] at isEnum
      subst isEnum
      exact valued tree rfl isConstant

mutual

theorem GroupTree.length_asOf_le (version : Int32) : ∀ tree : GroupTree,
    (tree.asOf version).tokens.length ≤ tree.tokens.length
  | .group opening dimensions body closing => by
      have shorter := body.length_asOf_le version
      rw [GroupTree.asOf, GroupTree.tokens, GroupTree.tokens, length_enclose, length_enclose,
        List.length_append, List.length_append]
      omega

theorem GroupTree.length_listAsOf_le (version : Int32) : ∀ groups : List GroupTree,
    (GroupTree.listTokens (GroupTree.listAsOf version groups)).length ≤
      (GroupTree.listTokens groups).length
  | [] => Nat.le_refl _
  | first :: others => by
      have shorter := first.length_asOf_le version
      have fewer := GroupTree.length_listAsOf_le version others
      rw [GroupTree.listAsOf, GroupTree.listTokens, List.length_append]
      cases first.opening.1.isNewer version with
      | false =>
          simp only [Bool.false_eq_true, if_false, GroupTree.listTokens, List.length_append]
          omega
      | true =>
          simp only [if_true]
          omega

theorem BlockTree.length_asOf_le (version : Int32) : ∀ tree : BlockTree,
    (tree.asOf version).tokens.length ≤ tree.tokens.length
  | .block fields groups varData => by
      have fewerGroups := GroupTree.length_listAsOf_le version groups
      have fewerFields := fun keep : FieldTree → Bool =>
        ((List.filter_sublist (p := keep) (l := fields)).flatMap FieldTree.tokens).length_le
      have fewerData := fun keep : VarDataTree → Bool =>
        ((List.filter_sublist (p := keep) (l := varData)).flatMap VarDataTree.tokens).length_le
      rw [BlockTree.asOf, BlockTree.tokens, BlockTree.tokens]
      simp only [List.length_append]
      exact Nat.add_le_add (fewerFields _) (Nat.add_le_add fewerGroups (fewerData _))

end

/-- A message of an older producer.  The tokens that a draft has stored, and those without the
constructs that the producer did not know, are read with the same outcome.  The stored tokens
deliver an absence for each of these constructs in its place, the others do not, and apart from
that the events are the same but for the spans of messages and groups.  Absences come from the
tokens alone, so they read nothing, move no position and never fail. -/
theorem decode_olderProducer {draft extended : SchemaDraft} {messageId : Int64}
    {message : MessageTree} (accepted : draft.addMessage messageId message.tokens = .ok extended)
    (countable : message.tokens.length < spanLimit)
    (complete : ∀ field ∈ message.reduced.measured.body.allFields, field.Complete)
    (actingVersion : Int32) :
    ∃ stored known, extended.messages.get? messageId = some stored ∧
      stored = message.reduced.measured.tokens ∧
      withSpans (message.reduced.measured.asOf actingVersion).tokens = .ok known ∧
      ∀ (buffer : Buffer) (offset blockLength : Nat),
        let reading (absences : Bool) := message.reduced.measured.walkAsOf
          ⟨buffer, actingVersion⟩ absences offset blockLength
        let ofStored := decode buffer offset actingVersion blockLength stored
        let ofKnown := decode buffer offset actingVersion blockLength known
        ofStored.outcome = ofKnown.outcome ∧
          ofStored = reading true ∧
          ofKnown.mapEvents Event.unspanned = (reading false).mapEvents Event.unspanned ∧
          (ofKnown.events.map Event.unspanned).Sublist
            (ofStored.events.map Event.unspanned) := by
  obtain ⟨resolved, isStored⟩ := SchemaDraft.addMessage_tokens accepted
  have spanned := SchemaDraft.spanned_of_addMessage accepted countable
  refine ⟨_, _, isStored, rfl, MessageTree.withSpans_tokens _, ?_⟩
  intro buffer offset blockLength reading ofStored ofKnown
  have foreseen : ∀ field ∈ message.reduced.measured.body.allFields, field.Foreseen := by
    intro field member
    refine ⟨complete field member, ?_⟩
    rw [MessageTree.measured, MessageTree.reduced, BlockTree.allFields_measured,
      BlockTree.allFields_reduced, List.map_map] at member
    obtain ⟨source, sourceMember, rfl⟩ := List.mem_map.mp member
    exact (resolved source sourceMember).reduced.measured
  have knownSpanned : (message.reduced.measured.asOf actingVersion).measured.body.Spanned := by
    have small := SchemaDraft.length_stored_lt accepted countable
    have shorter := message.reduced.measured.body.length_asOf_le actingVersion
    exact BlockTree.measured_spanned _ (Nat.lt_of_le_of_lt shorter small)
  have storedReading : ofStored = reading true :=
    (decode_tokens spanned buffer offset actingVersion blockLength).trans
      (MessageTree.walk_eq_asOf ⟨buffer, actingVersion⟩ foreseen offset blockLength)
  have knownReading :
      ofKnown.mapEvents Event.unspanned = (reading false).mapEvents Event.unspanned := by
    have along := decode_tokens knownSpanned buffer offset actingVersion blockLength
    rw [show ofKnown = _ from along]
    exact MessageTree.walk_asOf ⟨buffer, actingVersion⟩ message.reduced offset blockLength
  have omits : Walk.Omits (ofKnown.mapEvents Event.unspanned)
      (ofStored.mapEvents Event.unspanned) := by
    rw [knownReading, storedReading]
    exact (MessageTree.omits_asOf _ _ offset blockLength).mapEvents Event.unspanned
  exact ⟨omits.outcome.symm, storedReading, knownReading, omits.events⟩

/-- The order, written by a producer who knew neither the fixed side nor the notes of the legs. -/
theorem decode_olderProducer_order :
    ∃ extended, emptyDraft.addMessage 1 orderMessage.tokens = .ok extended ∧
      orderMessage.tokens.length < spanLimit ∧
      (∀ field ∈ orderMessage.reduced.measured.body.allFields, field.Complete) ∧
      ∃ stored known, extended.messages.get? 1 = some stored ∧
        stored = orderMessage.reduced.measured.tokens ∧
        withSpans (orderMessage.reduced.measured.asOf 0).tokens = .ok known ∧
        ∀ (buffer : Buffer) (offset blockLength : Nat),
          let reading (absences : Bool) := orderMessage.reduced.measured.walkAsOf
            ⟨buffer, 0⟩ absences offset blockLength
          let ofStored := decode buffer offset 0 blockLength stored
          let ofKnown := decode buffer offset 0 blockLength known
          ofStored.outcome = ofKnown.outcome ∧
            ofStored = reading true ∧
            ofKnown.mapEvents Event.unspanned = (reading false).mapEvents Event.unspanned ∧
            (ofKnown.events.map Event.unspanned).Sublist
              (ofStored.events.map Event.unspanned) := by
  obtain ⟨extended, accepted⟩ := orderMessage_accepted
  have countable : orderMessage.tokens.length < spanLimit := by decide
  have complete : ∀ field ∈ orderMessage.reduced.measured.body.allFields, field.Complete := by
    decide +kernel
  exact ⟨extended, accepted, countable, complete,
    decode_olderProducer accepted countable complete 0⟩

end WireSchema
