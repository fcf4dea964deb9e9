/-
Module: WireSchema.Proofs.WireRoundTrip
Purpose: A message that is written from a tree of bytes and read along its schema tree delivers what
  the tree of bytes says, and the reader ends behind the last byte that was written
  (`BlockTree.walk_bytesAt`).  `Carries` collects what the schema and the bytes have to have in
  common: the schema describes the dimensions and the lengths the way they are written, the producer
  knew every construct, and every value lies inside the bytes of its block.
Main exports: TypeTree.Carries, BlockTree.Carries, BlockTree.walk_bytesAt
-/
import WireSchema.Proofs.WireReading

namespace WireSchema

/-! ### What a schema can carry -/

/-- An enum is carried if it takes its one value from the schema, or can be read. -/
def EnumTree.Carries (actingVersion : Int32) (length : Nat) (field : Token) (base : Nat)
    (tree : EnumTree) : Prop :=
  if field.isConstant then
    ∃ first others, tree.values = first :: others ∧ first.1.encoding.constValue.isSome
  else Readable actingVersion length field tree.opening base

mutual

/-- A type at a base of a block of a length can be read. -/
def TypeTree.Carries (actingVersion : Int32) (length : Nat) (field : Token) (base : Nat) :
    TypeTree → Prop
  | .encoding leaf => Readable actingVersion length field leaf base
  | .enumeration tree => tree.Carries actingVersion length field base
  | .set tree => Readable actingVersion length field tree.opening base
  | .composite opening members _ =>
    0 ≤ opening.1.offset ∧ TypeTree.MembersCarry actingVersion length field
      (base + opening.1.offset.toNatClampNeg) members

/-- The same for the members of a composite. -/
def TypeTree.MembersCarry (actingVersion : Int32) (length : Nat) (field : Token) (base : Nat) :
    List TypeTree → Prop
  | [] => True
  | member :: members =>
    member.Carries actingVersion length field base ∧
      TypeTree.MembersCarry actingVersion length field base members

end

/-- Variable data can carry a content for each of them. -/
def VarDataTree.ListCarries (actingVersion : Int32) : List VarDataTree → List (List UInt8) → Prop
  | [], [] => True
  | data :: others, content :: contents =>
    (data.opening.1.version ≤ actingVersion ∧ data.layout.IsVarData ∧
      content.length < UInt16.size) ∧ VarDataTree.ListCarries actingVersion others contents
  | _, _ => False

mutual

/-- A group can carry some entries. -/
def GroupTree.Carries (actingVersion : Int32) : GroupTree → GroupValue → Prop
  | .group opening dimensions body _, .group blockLength entries =>
    (opening.1.version ≤ actingVersion ∧ dimensions.IsDimensions ∧
      entries.length < UInt16.size) ∧
      ∀ entry ∈ entries, entry.content.length = blockLength.toNat ∧
        body.Carries actingVersion entry

/-- Groups can carry the entries of each. -/
def GroupTree.ListCarries (actingVersion : Int32) : List GroupTree → List GroupValue → Prop
  | [], [] => True
  | group :: groups, value :: values =>
    group.Carries actingVersion value ∧ GroupTree.ListCarries actingVersion groups values
  | _, _ => False

/-- A body can carry a block and everything that follows it. -/
def BlockTree.Carries (actingVersion : Int32) : BlockTree → BlockValue → Prop
  | .block fields groups varData, .block content groupValues contents =>
    (∀ field ∈ fields,
      field.type.Carries actingVersion content.length field.opening 0) ∧
      GroupTree.ListCarries actingVersion groups groupValues ∧
      VarDataTree.ListCarries actingVersion varData contents

end

/-! ### Fields -/

variable {buffer : Buffer} {actingVersion : Int32} {position : Nat} {block : List UInt8}

theorem EnumTree.walk_bytesAt (stands : BytesAt buffer position block)
    (small : buffer.size ≤ lastPosition) {field : Token} {base : Nat} {tree : EnumTree}
    (carries : tree.Carries actingVersion block.length field base) :
    tree.walk ⟨buffer, actingVersion⟩ field (advance position base) =
      ⟨(TypeTree.enumeration tree).deliver block field base, .ok ()⟩ := by
  have value : (if field.isConstant then constantEnumValue field (tree.values.map (·.1))
      else readValue ⟨buffer, actingVersion⟩ field tree.opening (advance position base)) =
        .ok (tree.valueIn block field base) := by
    rw [EnumTree.Carries] at carries
    rw [EnumTree.valueIn]
    split at carries
    · next isConstant =>
        obtain ⟨first, others, shape, fixed⟩ := carries
        obtain ⟨constant, isFixed⟩ := Option.isSome_iff_exists.mp fixed
        simp [isConstant, shape, constantEnumValue, isFixed]
    · next notConstant =>
        rw [if_neg notConstant, if_neg notConstant, readValue_bytesAt stands small carries]
  rw [EnumTree.walk, value, TypeTree.deliver]
  rfl

mutual

theorem TypeTree.walk_bytesAt (stands : BytesAt buffer position block)
    (small : buffer.size ≤ lastPosition) {field : Token} : ∀ (tree : TypeTree) (base : Nat),
      tree.Carries actingVersion block.length field base →
        tree.walk ⟨buffer, actingVersion⟩ field (advance position base) =
          ⟨tree.deliver block field base, .ok ()⟩
  | .encoding leaf, base, carries => by
      rw [TypeTree.Carries] at carries
      rw [TypeTree.walk, readValue_bytesAt stands small carries, TypeTree.deliver]
      rfl
  | .enumeration tree, base, carries => by
      rw [TypeTree.Carries] at carries
      rw [TypeTree.walk, EnumTree.walk_bytesAt stands small carries]
  | .set tree, base, carries => by
      rw [TypeTree.Carries] at carries
      rw [TypeTree.walk, SetTree.walk, readValue_bytesAt stands small carries, TypeTree.deliver]
      rfl
  | .composite opening members closing, base, carries => by
      rw [TypeTree.Carries] at carries
      have inside := TypeTree.walkMembers_bytesAt stands small members _ carries.2
      rw [TypeTree.walk, positionOf_eq carries.1, advance_advance]
      simp only [Walk.check_ok_bind, inside]
      rw [TypeTree.deliver]
      rfl

theorem TypeTree.walkMembers_bytesAt (stands : BytesAt buffer position block)
    (small : buffer.size ≤ lastPosition) {field : Token} :
    ∀ (members : List TypeTree) (base : Nat),
      TypeTree.MembersCarry actingVersion block.length field base members →
        TypeTree.walkMembers ⟨buffer, actingVersion⟩ field (advance position base) members =
          ⟨TypeTree.deliverMembers block field base members, .ok ()⟩
  | [], base, _ => by
      rw [TypeTree.walkMembers, TypeTree.deliverMembers]
      rfl
  | member :: members, base, carries => by
      rw [TypeTree.MembersCarry] at carries
      rw [TypeTree.walkMembers, TypeTree.deliverMembers,
        member.walk_bytesAt stands small base carries.1,
        TypeTree.walkMembers_bytesAt stands small members base carries.2, Walk.ok_bind]

end

theorem FieldTree.walkList_bytesAt (stands : BytesAt buffer position block)
    (small : buffer.size ≤ lastPosition) {fields : List FieldTree}
    (carries : ∀ field ∈ fields,
      field.type.Carries actingVersion block.length field.opening 0) :
    FieldTree.walkList ⟨buffer, actingVersion⟩ position fields =
      ⟨fields.flatMap (FieldTree.deliver block), .ok ()⟩ := by
  induction fields with
  | nil => rfl
  | cons field fields ih =>
      have remaining := ih fun other member => carries other (List.mem_cons_of_mem field member)
      have bound := stands.length_le
      have first := field.type.walk_bytesAt stands small 0 (carries field List.mem_cons_self)
      rw [advance_of_le (by omega), Nat.add_zero] at first
      rw [FieldTree.walkList, FieldTree.walk, first, remaining, Walk.ok_bind, List.flatMap_cons]
      rfl

/-! ### Variable data and groups -/

theorem VarDataTree.walkList_bytesAt (small : buffer.size ≤ lastPosition) :
    ∀ (varData : List VarDataTree) (contents : List (List UInt8)) (position : Nat),
      VarDataTree.ListCarries actingVersion varData contents →
        BytesAt buffer position (contents.flatMap varDataBytes) →
          VarDataTree.walkList ⟨buffer, actingVersion⟩ position varData =
            ⟨VarDataTree.deliverList varData contents,
              .ok (position + (contents.flatMap varDataBytes).length)⟩
  | [], [], position, _, _ => rfl
  | [], _ :: _, _, carries, _ => by
      simp [VarDataTree.ListCarries] at carries
  | _ :: _, [], _, carries, _ => by
      simp [VarDataTree.ListCarries] at carries
  | data :: others, content :: contents, position, carries, stands => by
      rw [VarDataTree.ListCarries] at carries
      obtain ⟨⟨known, layout, fits⟩, othersCarry⟩ := carries
      rw [List.flatMap_cons] at stands
      rw [VarDataTree.walkList, VarDataTree.walk_bytesAt fits stands.left small known layout,
        Walk.ok_bind, VarDataTree.walkList_bytesAt small others contents _ othersCarry stands.right,
        VarDataTree.deliverList, List.flatMap_cons, List.length_append, Nat.add_assoc]
      rfl

/-- The entries of a group have room for their blocks. -/
theorem length_listBytes_ge {blockLength : Nat} {entries : List BlockValue}
    (common : ∀ entry ∈ entries, entry.content.length = blockLength) :
    entries.length * blockLength ≤ (BlockValue.listBytes entries).length := by
  induction entries with
  | nil => simp
  | cons entry entries ih =>
      have remaining := ih fun other member => common other (List.mem_cons_of_mem entry member)
      have first := common entry List.mem_cons_self
      obtain ⟨content, groups, varData⟩ := entry
      rw [BlockValue.content] at first
      rw [BlockValue.listBytes, BlockValue.bytes, List.length_append, List.length_append,
        List.length_cons, Nat.succ_mul]
      omega

/-- Entries are read one after another, given that each of them is read. -/
theorem inTurn_entries (opening : Token) (count : Nat) {read : Nat → Walk Nat}
    {deliver : BlockValue → List Event} :
    ∀ (entries : List BlockValue), (∀ entry ∈ entries, ∀ start,
        BytesAt buffer start entry.bytes →
          read start = ⟨deliver entry, .ok (start + entry.bytes.length)⟩) →
      ∀ (index position : Nat), BytesAt buffer position (BlockValue.listBytes entries) →
        Walk.inTurn (fun index start =>
            Walk.bracket (.beginGroup opening index count) (.endGroup opening index count)
              opening.name (read start)) index entries.length position =
          ⟨(entries.zipIdx index).flatMap fun (entry, index) =>
              .beginGroup opening index count ::
                (deliver entry ++ [.endGroup opening index count]),
            .ok (position + (BlockValue.listBytes entries).length)⟩
  | [], _, index, position, _ => rfl
  | entry :: entries, each, index, position, stands => by
      rw [BlockValue.listBytes] at stands
      have remaining := inTurn_entries opening count entries
        (fun other member => each other (List.mem_cons_of_mem entry member)) (index + 1)
        (position + entry.bytes.length) stands.right
      rw [List.length_cons, Walk.inTurn, each entry List.mem_cons_self position stands.left,
        Walk.bracket, Walk.ok_bind, remaining, BlockValue.listBytes, List.length_append,
        List.zipIdx_cons, List.flatMap_cons, Nat.add_assoc]

mutual

theorem GroupTree.walk_bytesAt (small : buffer.size ≤ lastPosition) :
    ∀ (tree : GroupTree) (value : GroupValue) (position : Nat),
      tree.Carries actingVersion value → BytesAt buffer position value.bytes →
        tree.walk ⟨buffer, actingVersion⟩ position =
          ⟨tree.deliver value, .ok (position + value.bytes.length)⟩
  | .group opening dimensions body closing, .group blockLength entries, position, carries,
      stands => by
      rw [GroupTree.Carries] at carries
      obtain ⟨⟨known, layout, fits⟩, each⟩ := carries
      rw [GroupValue.bytes] at stands
      have header : (groupHeaderBytes blockLength (UInt16.ofNat entries.length)).length = 4 := by
        simp [groupHeaderBytes]
      have room := length_listBytes_ge fun entry member => (each entry member).1
      have size := readGroupSize_bytesAt fits room stands small known layout
      have behind := stands.right
      rw [header] at behind
      have entryRead : ∀ entry ∈ entries, ∀ start, BytesAt buffer start entry.bytes →
          body.walk ⟨buffer, actingVersion⟩ start blockLength.toNat =
            ⟨body.deliver entry, .ok (start + entry.bytes.length)⟩ := by
        intro entry member start entryStands
        obtain ⟨length, entryCarries⟩ := each entry member
        rw [← length]
        exact body.walk_bytesAt small entry start entryCarries entryStands
      have entriesRead := inTurn_entries opening entries.length entries entryRead 0 (position + 4)
        behind
      rw [GroupTree.walk, size, GroupTree.deliver, GroupValue.bytes, List.length_append, header,
        ← Nat.add_assoc]
      simp only [Walk.check_ok_bind, entriesRead]
      rfl

theorem GroupTree.walkList_bytesAt (small : buffer.size ≤ lastPosition) :
    ∀ (groups : List GroupTree) (values : List GroupValue) (position : Nat),
      GroupTree.ListCarries actingVersion groups values →
        BytesAt buffer position (GroupValue.listBytes values) →
          GroupTree.walkList ⟨buffer, actingVersion⟩ position groups =
            ⟨GroupTree.deliverList groups values,
              .ok (position + (GroupValue.listBytes values).length)⟩
  | [], [], position, _, _ => by
      rw [GroupTree.walkList, GroupTree.deliverList]
      · rfl
      · simp
  | [], _ :: _, _, carries, _ => by
      simp [GroupTree.ListCarries] at carries
  | _ :: _, [], _, carries, _ => by
      simp [GroupTree.ListCarries] at carries
  | first :: others, value :: values, position, carries, stands => by
      rw [GroupTree.ListCarries] at carries
      rw [GroupValue.listBytes] at stands
      rw [GroupTree.walkList, first.walk_bytesAt small value position carries.1 stands.left,
        Walk.ok_bind, GroupTree.walkList_bytesAt small others values _ carries.2 stands.right,
        GroupTree.deliverList, GroupValue.listBytes, List.length_append, Nat.add_assoc]

/-- A block that carries some bytes is read back with everything that follows it, wherever the
bytes stand. -/
theorem BlockTree.walk_bytesAt (small : buffer.size ≤ lastPosition) :
    ∀ (tree : BlockTree) (value : BlockValue) (position : Nat),
      tree.Carries actingVersion value → BytesAt buffer position value.bytes →
        tree.walk ⟨buffer, actingVersion⟩ position value.content.length =
          ⟨tree.deliver value, .ok (position + value.bytes.length)⟩
  | .block fields groups varData, .block content groupValues contents, position, carries,
      stands => by
      rw [BlockTree.Carries] at carries
      obtain ⟨fieldsCarry, groupsCarry, varDataCarries⟩ := carries
      rw [BlockValue.bytes] at stands
      have bound := stands.length_le
      rw [List.length_append] at bound
      have behind : advance position content.length = position + content.length :=
        advance_of_le (by omega)
      rw [BlockTree.walk, BlockValue.content, behind,
        FieldTree.walkList_bytesAt stands.left small fieldsCarry, Walk.ok_bind,
        GroupTree.walkList_bytesAt small groups groupValues _ groupsCarry stands.right.left,
        Walk.ok_bind,
        VarDataTree.walkList_bytesAt small varData contents _ varDataCarries stands.right.right,
        BlockTree.deliver, BlockValue.bytes]
      simp only [List.length_append, Nat.add_assoc]

end

end WireSchema
