/-
Module: WireSchema.Proofs.AbsentTypes
Purpose: What a producer did not know is told as absent, and no byte is read for it.  That goes
  value by value: a value is absent if its field came in later or if its own token did.  A whole
  type, or a part of one, is therefore told as absent exactly if each of its values is that the
  schema does not fix (`TypeTree.walk_eq_absence_iff`).  The versions of the composites around a
  value do not count.
Main exports: TypeTree.AllLater, TypeTree.walk_eq_absence_iff, decode_absences, boxed_present
-/
import WireSchema.Proofs.FieldVisits
import WireSchema.Proofs.OlderDecoding

namespace WireSchema

/-! ### Values that are not fixed -/

theorem lt_max_iff {least first second : Int32} :
    least < max first second ↔ least < first ∨ least < second := by
  by_cases order : first ≤ second
  · rw [show max first second = second from if_pos order]
    exact ⟨.inr, fun either => either.elim (Int32.lt_of_lt_of_le · order) id⟩
  · rw [show max first second = first from if_neg order]
    refine ⟨.inl, fun either => either.elim id fun below => ?_⟩
    exact Int32.lt_trans below (Int32.not_le.mp order)

/-- The token of a value, if the schema does not fix the value. -/
def unfixed (field token : Token) : List Token :=
  match constantOf? field token with
  | some _ => []
  | none => [token]

/-- Whether a field, or the token of a value in it, is newer than what the producer knew. -/
def Later (source : Source) (field token : Token) : Prop :=
  field.isNewer source.actingVersion = true ∨ token.isNewer source.actingVersion = true

instance (source : Source) (field token : Token) : Decidable (Later source field token) :=
  inferInstanceAs (Decidable (_ ∨ _))

theorem readValue_eq_absentValue_iff {source : Source} {field token : Token}
    (typed : token.encoding.primitiveType.isSome) (base : Nat) :
    readValue source field token base = .ok (absentValue field token) ↔
      ∀ other ∈ unfixed field token, Later source field other := by
  obtain ⟨type, isType⟩ := Option.isSome_iff_exists.mp typed
  rw [readValue, absentValue, unfixed]
  cases constantOf? field token with
  | some value => simp
  | none =>
      have later : Later source field token ↔
          source.actingVersion < max field.version token.version := by
        rw [Later, lt_max_iff, Token.isNewer, Token.isNewer, decide_eq_true_iff, decide_eq_true_iff]
      rw [List.forall_mem_singleton, later]
      by_cases isLater : source.actingVersion < max field.version token.version
      · refine iff_of_true ?_ isLater
        simp only [isType, if_pos isLater, Encoding.applicableNull]
        cases token.encoding.nullValue <;> rfl
      · refine iff_of_false (fun isRead => ?_) isLater
        simp only [isType, if_neg isLater] at isRead
        obtain ⟨position, _, isRead⟩ := ok_of_bind isRead
        split at isRead
        · obtain ⟨content, _, isRead⟩ := ok_of_bind isRead
          cases isRead
        · obtain ⟨values, _, isRead⟩ := ok_of_bind isRead
          cases isRead

/-! ### Walks that deliver what is known -/

namespace Walk

theorem check_emit_eq_deliver_iff {α : Type} {step : Except AccessError α} {event : α → Event}
    (injective : Function.Injective event) {value : α} :
    (Walk.check step >>= fun found => Walk.emit (event found)) = Walk.deliver [event value] ↔
      step = .ok value := by
  constructor
  · intro same
    cases step with
    | error problem => cases congrArg Walk.outcome same
    | ok found =>
        have event := List.cons.inj (congrArg Walk.events same)
        exact congrArg Except.ok (injective event.1)
  · rintro rfl
    rfl

theorem bracket_eq_deliver_iff {opening closing : Event} {name : String} {inner : Walk Unit}
    {events : List Event} :
    Walk.bracket opening closing name inner = Walk.deliver (opening :: (events ++ [closing])) ↔
      inner = Walk.deliver events := by
  constructor
  · intro same
    obtain ⟨inside, outcome⟩ := inner
    cases outcome with
    | error problem => cases congrArg Walk.outcome same
    | ok result =>
        have around := (List.cons.inj (congrArg Walk.events same)).2
        exact congrArg (Walk.mk · _) (List.append_cancel_right around)
  · rintro rfl
    rfl

theorem bind_eq_deliver_iff {first second : Walk Unit} {before after : List Event}
    (length : first.outcome = .ok () → first.events.length = before.length) :
    (first >>= fun _ => second) = Walk.deliver (before ++ after) ↔
      first = Walk.deliver before ∧ second = Walk.deliver after := by
  constructor
  · intro same
    obtain ⟨events, outcome⟩ := first
    cases outcome with
    | error problem => cases congrArg Walk.outcome same
    | ok result =>
        have parts := List.append_inj (congrArg Walk.events same) (length rfl)
        have ends : second.outcome = .ok () := congrArg Walk.outcome same
        obtain ⟨later, outcome⟩ := second
        refine ⟨congrArg (Walk.mk · _) parts.1, ?_⟩
        rw [Walk.deliver, ← parts.2, ← ends]
  · rintro ⟨rfl, rfl⟩
    rfl

end Walk

/-! ### Types told as absent -/

mutual

/-- The tokens of the values in a type that the schema does not fix. -/
def TypeTree.unfixed (field : Token) : TypeTree → List Token
  | .encoding leaf => WireSchema.unfixed field leaf
  | .enumeration tree => if field.isConstant then [] else WireSchema.unfixed field tree.opening
  | .set tree => WireSchema.unfixed field tree.opening
  | .composite _ members _ => TypeTree.memberUnfixed field members

/-- The same for the members of a composite. -/
def TypeTree.memberUnfixed (field : Token) : List TypeTree → List Token
  | [] => []
  | member :: members => member.unfixed field ++ TypeTree.memberUnfixed field members

end

variable {source : Source} {field : Token}

mutual

/-- A type that is read as a whole delivers as many events as where it is absent. -/
theorem TypeTree.length_events : ∀ (tree : TypeTree) (base : Nat),
    (tree.walk source field base).outcome = .ok () →
      (tree.walk source field base).events.length = (tree.absence field).length
  | .encoding leaf, base, ends => by
      rw [TypeTree.walk] at ends ⊢
      rw [TypeTree.absence]
      cases isRead : readValue source field leaf base with
      | error problem =>
          rw [isRead] at ends
          cases ends
      | ok value => rfl
  | .enumeration tree, base, ends => by
      rw [TypeTree.walk, EnumTree.walk] at ends ⊢
      rw [TypeTree.absence]
      generalize (if field.isConstant = true then _ else _) = step at ends ⊢
      cases step with
      | error problem => cases ends
      | ok value => rfl
  | .set tree, base, ends => by
      rw [TypeTree.walk, SetTree.walk] at ends ⊢
      rw [TypeTree.absence]
      cases isRead : readValue source field tree.opening base with
      | error problem =>
          rw [isRead] at ends
          cases ends
      | ok value => rfl
  | .composite opening members closing, base, ends => by
      rw [TypeTree.walk] at ends ⊢
      rw [TypeTree.absence]
      cases isStart : positionOf base opening.1 with
      | error problem =>
          rw [isStart] at ends
          cases ends
      | ok start =>
          rw [isStart] at ends
          rw [Walk.check_ok_bind] at ends ⊢
          have inside := TypeTree.length_memberEvents members start (Walk.ok_of_bracket ends)
          rcases walked : TypeTree.walkMembers source field start members with ⟨events, outcome⟩
          rw [walked] at ends inside
          cases outcome with
          | error problem => cases ends
          | ok result => simpa [Walk.bracket] using inside

theorem TypeTree.length_memberEvents : ∀ (members : List TypeTree) (start : Nat),
    (TypeTree.walkMembers source field start members).outcome = .ok () →
      (TypeTree.walkMembers source field start members).events.length =
        (TypeTree.memberAbsences field members).length
  | [], _, _ => by
      rw [TypeTree.walkMembers, TypeTree.memberAbsences]
      rfl
  | first :: others, start, ends => by
      rw [TypeTree.walkMembers] at ends ⊢
      rw [TypeTree.memberAbsences, List.length_append]
      obtain ⟨_, firstEnds, othersEnd⟩ := Walk.ok_of_bind ends
      rw [← first.length_events start firstEnds,
        ← TypeTree.length_memberEvents others start othersEnd, ← List.length_append]
      rcases walked : first.walk source field start with ⟨events, outcome⟩
      rw [walked] at firstEnds
      cases firstEnds
      rfl

end

/-- Whether the values in a type that the schema does not fix all came in later. -/
def TypeTree.AllLater (source : Source) (field : Token) (tree : TypeTree) : Prop :=
  ∀ token ∈ tree.unfixed field, Later source field token

instance (tree : TypeTree) : Decidable (tree.AllLater source field) :=
  inferInstanceAs (Decidable (∀ _ ∈ _, _))

theorem EncodingLeaf.walk_eq_absence_iff {leaf : EncodingLeaf}
    (complete : (TypeTree.encoding leaf).Complete) (base : Nat) :
    (TypeTree.encoding leaf).walk source field base =
        Walk.deliver ((TypeTree.encoding leaf).absence field) ↔
      (TypeTree.encoding leaf).AllLater source field := by
  rw [TypeTree.Complete] at complete
  rw [TypeTree.walk, TypeTree.absence, TypeTree.AllLater, TypeTree.unfixed]
  refine (Walk.check_emit_eq_deliver_iff fun one other same => ?_).trans
    (readValue_eq_absentValue_iff complete base)
  injection same

theorem SetTree.walk_eq_absence_iff {tree : SetTree} (complete : (TypeTree.set tree).Complete)
    (base : Nat) :
    tree.walk source field base = Walk.deliver ((TypeTree.set tree).absence field) ↔
      (TypeTree.set tree).AllLater source field := by
  rw [TypeTree.Complete] at complete
  rw [SetTree.walk, TypeTree.absence, TypeTree.AllLater, TypeTree.unfixed]
  refine (Walk.check_emit_eq_deliver_iff fun one other same => ?_).trans
    (readValue_eq_absentValue_iff complete base)
  injection same

theorem EnumTree.walk_eq_absence_iff {tree : EnumTree}
    (complete : (TypeTree.enumeration tree).Complete)
    (valued : field.isConstant = true → tree.values ≠ []) (base : Nat) :
    tree.walk source field base = Walk.deliver ((TypeTree.enumeration tree).absence field) ↔
      (TypeTree.enumeration tree).AllLater source field := by
  rw [TypeTree.Complete] at complete
  obtain ⟨typed, fixed⟩ := complete
  have injective : Function.Injective fun value => Event.enumeration field tree.tokens value
      (matchedValue? (tree.values.map (·.1)) value) := fun one other same => by
    injection same
  rw [TypeTree.AllLater, TypeTree.unfixed, EnumTree.walk, TypeTree.absence]
  refine (Walk.check_emit_eq_deliver_iff injective).trans ?_
  rw [EnumTree.absentValue]
  cases isConstant : field.isConstant with
  | false =>
      simp only [Bool.false_eq_true, if_false]
      exact readValue_eq_absentValue_iff typed base
  | true =>
      simp only [if_true, List.not_mem_nil, false_implies, implies_true, iff_true]
      cases shape : tree.values with
      | nil => exact absurd shape (valued isConstant)
      | cons first others =>
          have isFixed := fixed first (by rw [shape]; exact List.mem_cons_self)
          obtain ⟨constant, isConstant⟩ := Option.isSome_iff_exists.mp isFixed
          simp [constantEnumValue, isConstant]

mutual

/-- A type of a field that is not constant is told as absent, and nothing is read for it, exactly if
each of its values that the schema does not fix came in later. -/
theorem TypeTree.walk_eq_absence_iff (notConstant : field.isConstant = false) :
    ∀ tree : TypeTree, tree.Complete → ∀ base,
      (tree.walk source field base = Walk.deliver (tree.absence field) ↔
        tree.AllLater source field)
  | .encoding leaf, complete, base => EncodingLeaf.walk_eq_absence_iff complete base
  | .enumeration tree, complete, base => by
      rw [TypeTree.walk]
      apply EnumTree.walk_eq_absence_iff complete
      intro isConstant
      rw [isConstant] at notConstant
      cases notConstant
  | .set tree, complete, base => by
      rw [TypeTree.walk]
      exact SetTree.walk_eq_absence_iff complete base
  | .composite opening members closing, complete, base => by
      rw [TypeTree.Complete] at complete
      obtain ⟨start, isStart⟩ := positionOf_of_nonneg complete.1 base
      rw [TypeTree.walk, isStart, Walk.check_ok_bind, TypeTree.absence, TypeTree.AllLater,
        TypeTree.unfixed]
      exact Walk.bracket_eq_deliver_iff.trans
        (TypeTree.walkMembers_eq_absences_iff notConstant members complete.2 start)

/-- The same for the members of a composite. -/
theorem TypeTree.walkMembers_eq_absences_iff (notConstant : field.isConstant = false) :
    ∀ members : List TypeTree, TypeTree.MembersComplete members → ∀ start,
      (TypeTree.walkMembers source field start members =
          Walk.deliver (TypeTree.memberAbsences field members) ↔
        ∀ token ∈ TypeTree.memberUnfixed field members, Later source field token)
  | [], _, start => by
      rw [TypeTree.walkMembers, TypeTree.memberAbsences, TypeTree.memberUnfixed]
      exact iff_of_true rfl fun _ member => absurd member List.not_mem_nil
  | first :: others, complete, start => by
      rw [TypeTree.MembersComplete] at complete
      rw [TypeTree.walkMembers, TypeTree.memberAbsences, TypeTree.memberUnfixed,
        List.forall_mem_append, Walk.bind_eq_deliver_iff (first.length_events start),
        first.walk_eq_absence_iff notConstant complete.1,
        TypeTree.walkMembers_eq_absences_iff notConstant others complete.2]
      rfl

end

/-! ### Parts of a field -/

mutual

/-- A type and the types inside it. -/
def TypeTree.parts : TypeTree → List TypeTree
  | .composite opening members closing =>
    .composite opening members closing :: TypeTree.memberParts members
  | tree => [tree]

/-- The members of a composite and the types inside them. -/
def TypeTree.memberParts : List TypeTree → List TypeTree
  | [] => []
  | member :: members => member.parts ++ TypeTree.memberParts members

end

mutual

theorem TypeTree.complete_of_mem_parts : ∀ tree : TypeTree, tree.Complete →
    ∀ part ∈ tree.parts, part.Complete
  | .encoding leaf, complete => List.forall_mem_singleton.mpr complete
  | .enumeration tree, complete => List.forall_mem_singleton.mpr complete
  | .set tree, complete => List.forall_mem_singleton.mpr complete
  | .composite opening members closing, complete => by
      rw [TypeTree.parts, List.forall_mem_cons]
      refine ⟨complete, ?_⟩
      rw [TypeTree.Complete] at complete
      exact TypeTree.complete_of_mem_memberParts members complete.2

theorem TypeTree.complete_of_mem_memberParts : ∀ members : List TypeTree,
    TypeTree.MembersComplete members → ∀ part ∈ TypeTree.memberParts members, part.Complete
  | [], _ => fun _ member => absurd member List.not_mem_nil
  | first :: others, complete => by
      rw [TypeTree.MembersComplete] at complete
      rw [TypeTree.memberParts, List.forall_mem_append]
      exact ⟨first.complete_of_mem_parts complete.1,
        TypeTree.complete_of_mem_memberParts others complete.2⟩

end

theorem TypeTree.parts_of_not_composite {tree : TypeTree} (scalar : tree.isComposite = false) :
    tree.parts = [tree] := by
  cases tree with
  | composite opening members closing => cases scalar
  | _ => rfl

/-- The same for every part of a field, the field being constant or not. -/
theorem FieldTree.walk_part_iff {field : FieldTree} (complete : field.Complete)
    (valued : field.Valued) {part : TypeTree} (member : part ∈ field.type.parts) (base : Nat) :
    part.walk source field.opening base = Walk.deliver (part.absence field.opening) ↔
      part.AllLater source field.opening := by
  have partComplete := field.type.complete_of_mem_parts complete.1 part member
  cases isConstant : field.opening.1.isConstant with
  | false => exact part.walk_eq_absence_iff isConstant partComplete base
  | true =>
      rw [TypeTree.parts_of_not_composite (complete.2 isConstant), List.mem_singleton] at member
      subst member
      cases shape : field.type with
      | encoding leaf =>
          rw [shape] at partComplete
          exact EncodingLeaf.walk_eq_absence_iff partComplete base
      | enumeration tree =>
          rw [shape] at partComplete
          rw [TypeTree.walk]
          exact EnumTree.walk_eq_absence_iff partComplete (valued tree shape) base
      | set tree =>
          rw [shape] at partComplete
          rw [TypeTree.walk]
          exact SetTree.walk_eq_absence_iff partComplete base
      | composite opening members closing =>
          have scalar := complete.2 isConstant
          rw [shape] at scalar
          cases scalar

/-! ### Absent fields -/

/-- What is told about a field and the parts of its type.  A part is told as absent, whatever the
bytes are, exactly if its values came in later.  They did if the field came in later, and so did the
value of a field that is no composite if its type came in later. -/
structure FieldTree.ToldByValues (source : Source) (field : FieldTree) : Prop where
  parts : ∀ part ∈ field.type.parts, ∀ base,
    part.walk source field.opening base = Walk.deliver (part.absence field.opening) ↔
      part.AllLater source field.opening
  laterField : field.opening.1.isNewer source.actingVersion = true →
    ∀ part ∈ field.type.parts, part.AllLater source field.opening
  laterType : field.type.isComposite = false →
    (∀ token ∈ field.type.tokens.head?, token.isNewer source.actingVersion = true) →
    field.type.AllLater source field.opening

theorem mem_unfixed {token other : Token} (member : other ∈ unfixed field token) :
    other = token := by
  rw [unfixed] at member
  split at member
  · cases member
  · exact List.mem_singleton.mp member

theorem TypeTree.allLater_of_laterType {tree : TypeTree} (scalar : tree.isComposite = false)
    (later : ∀ token ∈ tree.tokens.head?, token.isNewer source.actingVersion = true) :
    tree.AllLater source field := by
  intro token member
  cases tree with
  | encoding leaf =>
      rw [mem_unfixed member]
      exact .inr (later leaf rfl)
  | enumeration tree =>
      rw [TypeTree.unfixed] at member
      split at member
      · cases member
      · rw [mem_unfixed member]
        exact .inr (later tree.opening rfl)
  | set tree =>
      rw [mem_unfixed member]
      exact .inr (later tree.opening rfl)
  | composite opening members closing => cases scalar

theorem FieldTree.toldByValues {field : FieldTree} (source : Source) (complete : field.Complete)
    (valued : field.Valued) : field.ToldByValues source where
  parts _ member base := field.walk_part_iff complete valued member base
  laterField later _ _ _ _ := .inl later
  laterType := TypeTree.allLater_of_laterType

/-- What a reader of an accepted message is told about fields is what it is told at its visits to
the stored fields.  At every visit the field, and every part of it, is told as absent exactly if its
values came in later; no byte is read for it then, and it does not fail. -/
theorem decode_absences {draft extended : SchemaDraft} {messageId : Int64} {message : MessageTree}
    (accepted : draft.addMessage messageId message.tokens = .ok extended)
    (countable : message.tokens.length < spanLimit)
    (complete : ∀ field ∈ message.reduced.measured.body.allFields, field.Complete) :
    ∃ stored, extended.messages.get? messageId = some stored ∧
      ∀ (buffer : Buffer) (offset : Nat) (actingVersion : Int32) (blockLength : Nat),
        let source : Source := ⟨buffer, actingVersion⟩
        let visits := message.reduced.measured.visits source offset blockLength
        (decode buffer offset actingVersion blockLength stored).events.filter Event.isOfField =
            visits.flatMap (Visit.events source) ∧
          ∀ visit ∈ visits, visit.field.ToldByValues source := by
  obtain ⟨resolved, isStored⟩ := SchemaDraft.addMessage_tokens accepted
  have spanned := SchemaDraft.spanned_of_addMessage accepted countable
  refine ⟨_, isStored, fun buffer offset actingVersion blockLength =>
    ⟨?_, fun visit member => ?_⟩⟩
  · rw [decode_tokens spanned]
    exact MessageTree.told_visits _ _ offset blockLength
  · have isField := BlockTree.mem_allFields_of_visit _ member
    refine visit.field.toldByValues _ (complete _ isField) ?_
    rw [MessageTree.measured, MessageTree.reduced, BlockTree.allFields_measured,
      BlockTree.allFields_reduced, List.map_map] at isField
    obtain ⟨field, isSource, same⟩ := List.mem_map.mp isField
    rw [← same]
    exact (resolved field isSource).reduced.measured

/-- An order of version zero: its fixed side came in later, and the value of that is fixed. -/
theorem decode_absences_order :
    ∃ extended, emptyDraft.addMessage 1 orderMessage.tokens = .ok extended ∧
      orderMessage.tokens.length < spanLimit ∧
      (∀ field ∈ orderMessage.reduced.measured.body.allFields, field.Complete) ∧
      ∃ stored, extended.messages.get? 1 = some stored ∧
        ∀ (buffer : Buffer) (offset blockLength : Nat),
          let visits := orderMessage.reduced.measured.visits ⟨buffer, 0⟩ offset blockLength
          (decode buffer offset 0 blockLength stored).events.filter Event.isOfField =
              visits.flatMap (Visit.events ⟨buffer, 0⟩) ∧
            ∀ visit ∈ visits, visit.field.ToldByValues ⟨buffer, 0⟩ := by
  obtain ⟨extended, accepted⟩ := orderMessage_accepted
  have countable : orderMessage.tokens.length < spanLimit := by decide
  have complete : ∀ field ∈ orderMessage.reduced.measured.body.allFields, field.Complete := by
    decide +kernel
  obtain ⟨stored, isStored, told⟩ := decode_absences accepted countable complete
  exact ⟨extended, accepted, countable, complete, stored, isStored,
    fun buffer offset blockLength => told buffer offset 0 blockLength⟩

/-- A parcel with a box around a weight.  The box came in with version one. -/
def boxedMessage : MessageTree :=
  let box : TypeTree :=
    .composite
      ⟨{ signal := .beginComposite, name := "Box", version := 1, encodedLength := 2 }, rfl⟩
      [.encoding ⟨FrontEnd.encoding "weight" .uint16 0, by decide⟩]
      ⟨{ signal := .endComposite, name := "Box", version := 1, encodedLength := 2 }, rfl⟩
  ⟨⟨{ signal := .beginMessage, name := "Parcel" }, rfl⟩,
    .block [⟨⟨{ signal := .beginField, name := "box" }, rfl⟩, box,
      ⟨{ signal := .endField, name := "box" }, rfl⟩⟩] [] [],
    ⟨{ signal := .endMessage, name := "Parcel" }, rfl⟩⟩

/-- To a reader of a message of version zero the weight in the box is there, and read from the
buffer: it fails if there is nothing to read. -/
theorem boxed_present :
    ∃ stored field weight, storedAlone boxedMessage.tokens = some stored ∧
      (∃ token ∈ stored, token.signal = .beginComposite ∧ token.isNewer 0 = true) ∧
      .encoding field weight (.present [.uint 5]) ∈ (decode #[5, 0] 0 0 2 stored).events ∧
      (decode #[] 0 0 0 stored).outcome.toOption = none := by
  refine ⟨boxedMessage.measured.tokens,
    { signal := .beginField, name := "box", storedSpan := 5 },
    FrontEnd.encoding "weight" .uint16 0, ?_⟩
  decide +kernel

end WireSchema
