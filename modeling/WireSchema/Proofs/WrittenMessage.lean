/-
Module: WireSchema.Proofs.WrittenMessage
Purpose: A message that is put together by hand, stored in a draft and written from a tree of bytes
  is read back: the header gives the four numbers that were written, and the body delivers the
  values of the bytes and ends behind the last of them (`read_written`).
Main exports: BlockTree.Suits, HeaderStructure.IsWritten, read_written, read_misplaced
-/
import WireSchema.Decoding.Reception
import WireSchema.Proofs.BuiltTree

namespace WireSchema

/-!
The bytes have to suit the message.  Every value that stands on the wire lies inside its block, and
counts and lengths fit their two bytes.  Composites also have to start at a position that is not
negative, even those without a value on the wire: `misplacedMessage` shows that the reader checks
this on its way.
-/

/-! ### Bytes that suit a message -/

/-- A value that stands on the wire has a length and an offset, and ends inside the block. -/
def InsideBlock (length : Nat) (field typeToken : Token) (start : Int) : Prop :=
  (field.isConstant || typeToken.isConstant) = false →
    0 < typeToken.encodedLength ∧ 0 ≤ typeToken.offset ∧
      start + typeToken.offset.toInt + typeToken.encodedLength.toInt ≤ length

mutual

/-- Every value of a type ends inside the block, given where the construct around it starts. -/
def TypeTree.Inside (length : Nat) (field : Token) (start : Int) : TypeTree → Prop
  | .encoding leaf => InsideBlock length field leaf start
  | .enumeration tree => InsideBlock length field tree.opening start
  | .set tree => InsideBlock length field tree.opening start
  | .composite opening members _ =>
    TypeTree.MembersInside length field (start + opening.1.offset.toInt) members

/-- The same for the members of a composite. -/
def TypeTree.MembersInside (length : Nat) (field : Token) (start : Int) : List TypeTree → Prop
  | [] => True
  | member :: members =>
    member.Inside length field start ∧ TypeTree.MembersInside length field start members

end

mutual

/-- Every composite of a type starts at an offset that is not negative. -/
def TypeTree.Placed : TypeTree → Prop
  | .composite opening members _ => 0 ≤ opening.1.offset ∧ TypeTree.MembersPlaced members
  | _ => True

/-- The same for the members of a composite. -/
def TypeTree.MembersPlaced : List TypeTree → Prop
  | [] => True
  | member :: members => member.Placed ∧ TypeTree.MembersPlaced members

end

mutual

/-- The entries of a group have blocks of the given length, and suit its body. -/
def GroupTree.Suits : GroupTree → GroupValue → Prop
  | .group _ _ body _, .group blockLength entries =>
    entries.length < UInt16.size ∧
      ∀ entry ∈ entries, entry.content.length = blockLength.toNat ∧ body.Suits entry

/-- There are entries for each of some groups. -/
def GroupTree.ListSuits : List GroupTree → List GroupValue → Prop
  | [], [] => True
  | group :: groups, value :: values =>
    group.Suits value ∧ GroupTree.ListSuits groups values
  | _, _ => False

/-- The bytes of a block suit its fields, and what follows the block suits the groups and the
variable data. -/
def BlockTree.Suits : BlockTree → BlockValue → Prop
  | .block fields groups varData, .block content groupValues contents =>
    (∀ field ∈ fields, field.type.Inside content.length field.opening 0) ∧
      GroupTree.ListSuits groups groupValues ∧ contents.length = varData.length ∧
      ∀ content ∈ contents, content.length < UInt16.size

end

/-! ### From what is put together to what is stored -/

variable {actingVersion : Int32} {length : Nat} {field : Token}

theorem toInt_eq_toNatClampNeg {number : Int32} (fixed : 0 ≤ number) :
    number.toInt = number.toNatClampNeg := by
  have nonneg : 0 ≤ number.toInt := by simpa using Int32.le_iff_toInt_le.mp fixed
  rw [Int32.toNatClampNeg, Int.toNat_of_nonneg nonneg]

/-- A type token that is built and lies inside its block can be read. -/
theorem readable_of_inside {typeToken : Token} {base : Nat}
    (fieldKnown : field.version ≤ actingVersion) (tokenKnown : typeToken.version ≤ actingVersion)
    (typed : typeToken.encoding.primitiveType.isSome)
    (fixed : (field.isConstant || typeToken.isConstant) = true →
      (constantOf? field typeToken).isSome)
    (inside : InsideBlock length field typeToken base) :
    Readable actingVersion length field typeToken base := by
  refine ⟨fieldKnown, tokenKnown, typed, ?_⟩
  cases isConstant : field.isConstant || typeToken.isConstant with
  | true => exact .inl (fixed isConstant)
  | false =>
      obtain ⟨positive, placed, fits⟩ := inside isConstant
      right
      refine ⟨placed, positive, ?_⟩
      rw [toInt_eq_toNatClampNeg placed,
        toInt_eq_toNatClampNeg (Int32.le_of_lt positive)] at fits
      omega

/-- Emptying a constant leaves a value that can be read. -/
theorem Readable.emptied {typeToken : Token} {base : Nat}
    (readable : Readable actingVersion length field typeToken base)
    (fixed : (field.isConstant || typeToken.isConstant) = true →
      (constantOf? field typeToken).isSome) :
    Readable actingVersion length field (emptiedConstant typeToken) base := by
  rw [emptiedConstant]
  split
  · next both =>
      have isFixed := fixed (by rw [both.2, Bool.or_true])
      exact ⟨readable.fieldKnown, readable.tokenKnown, readable.typed, .inl isFixed⟩
  · exact readable

/-- Spans do not matter to a value. -/
theorem Readable.withSpan {typeToken : Token} {base : Nat}
    (readable : Readable actingVersion length field typeToken base) (fieldSpan span : Int32) :
    Readable actingVersion length (field.withSpan fieldSpan) (typeToken.withSpan span) base :=
  ⟨readable.fieldKnown, readable.tokenKnown, readable.typed, readable.inside⟩

/-- A token of a type that is not constant, in a field that is not constant either. -/
theorem not_constant_either {typeToken : Token} {conclusion : Prop}
    (fieldNotConstant : field.isConstant = false) (notConstant : typeToken.isConstant = false)
    (either : (field.isConstant || typeToken.isConstant) = true) : conclusion := by
  rw [fieldNotConstant, notConstant] at either
  cases either

/-- An encoding that is built is stored so that it can be read. -/
theorem EncodingLeaf.readable_stored {leaf : EncodingLeaf} {base : Nat}
    (fieldKnown : field.version ≤ actingVersion) (built : (TypeTree.encoding leaf).Built)
    (known : leaf.1.version ≤ actingVersion)
    (fieldConstant : field.isConstant = true → leaf.1.isConstant = true)
    (inside : InsideBlock length field leaf base) :
    Readable actingVersion length field leaf.reduced.1 base := by
  rw [TypeTree.Built] at built
  obtain ⟨token, isEncoding, same⟩ := built
  obtain ⟨typed, fixed⟩ := isEncoding.known same
  have constants : (field.isConstant || leaf.1.isConstant) = true →
      (constantOf? field leaf).isSome := by
    intro either
    have isConstant : leaf.1.isConstant = true :=
      (Bool.or_eq_true _ _ ▸ either).elim fieldConstant id
    obtain ⟨value, isValue⟩ := Option.isSome_iff_exists.mp (fixed isConstant)
    rw [constantOf?, isConstant, Bool.or_true, if_pos rfl, isValue]
    rfl
  exact (readable_of_inside fieldKnown known typed constants inside).emptied constants

variable {fieldSpan : Int32}

mutual

/-- A type of a field that is not constant is stored so that it can be read. -/
theorem TypeTree.carries_stored (fieldKnown : field.version ≤ actingVersion)
    (notConstant : field.isConstant = false) : ∀ (tree : TypeTree) (base : Nat), tree.Built →
      (∀ token ∈ tree.tokens, token.version ≤ actingVersion) → tree.Placed →
        tree.Inside length field base →
          tree.reduced.measured.Carries actingVersion length (field.withSpan fieldSpan) base
  | .encoding leaf, base, built, known, _, inside => by
      rw [TypeTree.Inside] at inside
      have leafKnown := known leaf (by rw [TypeTree.tokens]; exact List.mem_cons_self)
      have readable := EncodingLeaf.readable_stored fieldKnown built leafKnown
        (fun isConstant => by rw [notConstant] at isConstant; cases isConstant) inside
      rw [TypeTree.reduced, TypeTree.measured, TypeTree.Carries]
      exact readable.withSpan fieldSpan _
  | .enumeration tree, base, built, known, _, inside => by
      obtain ⟨typed, openingNotConstant, _⟩ := EnumTree.known_of_built built
      rw [TypeTree.Inside] at inside
      have openingKnown := known tree.opening
        (by rw [TypeTree.tokens]; exact List.mem_cons_self)
      have readable := readable_of_inside fieldKnown openingKnown typed
        (not_constant_either notConstant openingNotConstant) inside
      rw [TypeTree.reduced, TypeTree.measured, TypeTree.Carries, EnumTree.Carries,
        if_neg (by rw [show (field.withSpan fieldSpan).isConstant = false from notConstant]; simp)]
      exact readable.withSpan fieldSpan _
  | .set tree, base, built, known, _, inside => by
      obtain ⟨typed, openingNotConstant⟩ := SetTree.known_of_built built
      rw [TypeTree.Inside] at inside
      have openingKnown := known tree.opening
        (by rw [TypeTree.tokens]; exact List.mem_cons_self)
      have readable := readable_of_inside fieldKnown openingKnown typed
        (not_constant_either notConstant openingNotConstant) inside
      rw [TypeTree.reduced, TypeTree.measured, TypeTree.Carries]
      exact readable.withSpan fieldSpan _
  | .composite opening members closing, base, built, known, placed, inside => by
      rw [TypeTree.Built] at built
      rw [TypeTree.Placed] at placed
      rw [TypeTree.Inside, toInt_eq_toNatClampNeg placed.1, ← Int.natCast_add] at inside
      rw [TypeTree.tokens] at known
      rw [TypeTree.reduced, TypeTree.measured, TypeTree.Carries]
      refine ⟨placed.1, TypeTree.membersCarry_stored fieldKnown notConstant members _ built.1 ?_
        placed.2 inside⟩
      intro token member
      exact known token (List.mem_cons_of_mem _ (List.mem_append_left _ member))

theorem TypeTree.membersCarry_stored (fieldKnown : field.version ≤ actingVersion)
    (notConstant : field.isConstant = false) : ∀ (members : List TypeTree) (base : Nat),
      TypeTree.MembersBuilt members →
        (∀ token ∈ TypeTree.memberTokens members, token.version ≤ actingVersion) →
          TypeTree.MembersPlaced members → TypeTree.MembersInside length field base members →
            TypeTree.MembersCarry actingVersion length (field.withSpan fieldSpan) base
              (TypeTree.measuredMembers (TypeTree.reducedMembers members))
  | [], _, _, _, _, _ => by
      rw [TypeTree.reducedMembers, TypeTree.measuredMembers, TypeTree.MembersCarry]
      trivial
  | member :: members, base, built, known, placed, inside => by
      rw [TypeTree.MembersBuilt] at built
      rw [TypeTree.memberTokens, List.forall_mem_append] at known
      rw [TypeTree.MembersPlaced] at placed
      rw [TypeTree.MembersInside] at inside
      rw [TypeTree.reducedMembers, TypeTree.measuredMembers, TypeTree.MembersCarry]
      exact ⟨member.carries_stored fieldKnown notConstant base built.1 known.1 placed.1 inside.1,
        TypeTree.membersCarry_stored fieldKnown notConstant members base built.2 known.2 placed.2
          inside.2⟩

end

/-- A constant field around an enum is stored with a value to take. -/
theorem FieldTree.carries_constantEnum {opening : TokenOf .beginField} {tree : EnumTree}
    {closing : TokenOf .endField} (isConstant : opening.1.isConstant = true)
    (built : (TypeTree.enumeration tree).Built)
    (resolved : (FieldTree.mk opening (.enumeration tree) closing).Resolved) :
    (FieldTree.reducedType opening (.enumeration tree)).measured.Carries actingVersion length
      (opening.1.withSpan fieldSpan) 0 := by
  obtain ⟨value, named⟩ := resolved tree rfl isConstant
  replace named : tree.referred? (valueReference opening) = some value := named
  obtain ⟨_, _, fixed⟩ := EnumTree.known_of_built built
  have isFixed := fixed value (List.mem_of_find?_eq_some named)
  simp only [FieldTree.reducedType, named, isConstant, if_true, TypeTree.measured,
    TypeTree.Carries, EnumTree.Carries]
  rw [if_pos (show (opening.1.withSpan fieldSpan).isConstant = true from isConstant)]
  exact ⟨value.kept, [], rfl, isFixed⟩

/-- A field that is built is stored so that it can be read. -/
theorem FieldTree.carries_stored : ∀ {tree : FieldTree}, tree.Built →
    (∀ token ∈ tree.tokens, token.version ≤ actingVersion) → tree.type.Placed → tree.Resolved →
      tree.type.Inside length tree.opening 0 →
        tree.reduced.measured.type.Carries actingVersion length tree.reduced.measured.opening 0
  | ⟨opening, type, closing⟩, built, known, placed, resolved, inside => by
      have presence := FieldTree.presence_of_built built
      have fieldKnown := known opening List.mem_cons_self
      have typeKnown : ∀ token ∈ type.tokens, token.version ≤ actingVersion := by
        intro token member
        exact known token (List.mem_cons_of_mem _ (List.mem_append_left _ member))
      cases isConstant : opening.1.isConstant with
      | false =>
          simp only [FieldTree.reduced, FieldTree.measured,
            FieldTree.reducedType_of_not_constant isConstant]
          exact TypeTree.carries_stored fieldKnown isConstant type 0 built.1 typeKnown placed inside
      | true =>
          cases type with
          | encoding leaf =>
              obtain ⟨same, _⟩ | ⟨_, _, isEnum⟩ := presence
              · have leafConstant : leaf.1.isConstant = true := same.symm.trans isConstant
                have leafKnown := typeKnown leaf (by rw [TypeTree.tokens]; exact List.mem_cons_self)
                rw [TypeTree.Inside] at inside
                have readable := EncodingLeaf.readable_stored fieldKnown built.1 leafKnown
                  (fun _ => leafConstant) inside
                simp only [FieldTree.reduced, FieldTree.measured, FieldTree.reducedType,
                  TypeTree.reduced, TypeTree.measured, TypeTree.Carries]
                exact readable.withSpan _ _
              · cases isEnum
          | enumeration tree => exact FieldTree.carries_constantEnum isConstant built.1 resolved
          | set tree =>
              obtain ⟨same, _⟩ | ⟨_, _, isEnum⟩ := presence
              · have notConstant := (SetTree.known_of_built built.1).2
                have contradiction := same.symm.trans isConstant
                rw [TypeTree.head, notConstant] at contradiction
                cases contradiction
              · cases isEnum
          | composite first members last =>
              obtain ⟨same, _⟩ | ⟨_, _, isEnum⟩ := presence
              · have notConstant := isConstant_of_built built.1
                have contradiction := same.symm.trans isConstant
                rw [TypeTree.head, notConstant] at contradiction
                cases contradiction
              · cases isEnum

/-- A number stays one when constants are emptied. -/
theorem IsNumber.emptied {token : Token} {offset : Int32} (isNumber : IsNumber token offset) :
    IsNumber (emptiedConstant token) offset :=
  ⟨by rw [encoding_emptiedConstant, isNumber.type],
    by rw [encoding_emptiedConstant, isNumber.order],
    by rw [offset_emptiedConstant, isNumber.placed]⟩

theorem EncodingPair.IsDimensions.stored {tree : EncodingPair} (layout : tree.IsDimensions) :
    tree.reduced.measured.IsDimensions :=
  ⟨layout.first.emptied, layout.second.emptied, layout.length⟩

theorem EncodingPair.IsVarData.stored {tree : EncodingPair} (layout : tree.IsVarData) :
    tree.reduced.measured.IsVarData :=
  ⟨layout.first.emptied, (offset_emptiedConstant tree.second).trans layout.second⟩

theorem VarDataTree.carries_stored : ∀ {varData : List VarDataTree}
    {contents : List (List UInt8)}, (∀ data ∈ varData, data.Built) →
      (∀ token ∈ varData.flatMap VarDataTree.tokens, token.version ≤ actingVersion) →
        contents.length = varData.length → (∀ content ∈ contents, content.length < UInt16.size) →
          VarDataTree.ListCarries actingVersion
            ((varData.map VarDataTree.reduced).map VarDataTree.measured) contents
  | [], [], _, _, _, _ => by
      simp [VarDataTree.ListCarries]
  | [], _ :: _, _, _, many, _ => by
      cases many
  | _ :: _, [], _, _, many, _ => by
      cases many
  | data :: others, content :: contents, built, known, many, fit => by
      rw [List.flatMap_cons, List.forall_mem_append] at known
      rw [List.forall_mem_cons] at built fit
      have layout := VarDataTree.layout_of_built built.1
      have dataKnown := known.1 data.opening List.mem_cons_self
      rw [List.map_cons, List.map_cons, VarDataTree.ListCarries]
      exact ⟨⟨dataKnown, layout.stored, fit.1⟩,
        VarDataTree.carries_stored built.2 known.2 (Nat.succ.inj many) fit.2⟩

mutual

theorem GroupTree.carries_stored : ∀ {tree : GroupTree} {value : GroupValue}, tree.Built →
    (∀ token ∈ tree.tokens, token.version ≤ actingVersion) →
      (∀ field ∈ tree.allFields, field.type.Placed ∧ field.Resolved) → tree.Suits value →
        tree.reduced.measured.Carries actingVersion value
  | .group opening dimensions body closing, .group blockLength entries, built, known, fields,
      suits => by
      obtain ⟨layout, bodyBuilt⟩ := GroupTree.dimensions_of_built built
      rw [GroupTree.allFields] at fields
      rw [GroupTree.Suits] at suits
      rw [GroupTree.tokens] at known
      have openingKnown := known opening List.mem_cons_self
      have bodyKnown : ∀ token ∈ body.tokens, token.version ≤ actingVersion := by
        intro token member
        exact known token (List.mem_cons_of_mem _
          (List.mem_append_left _ (List.mem_append_right _ member)))
      rw [GroupTree.reduced, GroupTree.measured, GroupTree.Carries]
      refine ⟨⟨openingKnown, layout.stored, suits.1⟩, ?_⟩
      intro entry member
      obtain ⟨length, entrySuits⟩ := suits.2 entry member
      exact ⟨length, BlockTree.carries_stored bodyBuilt bodyKnown fields entrySuits⟩

theorem GroupTree.listCarries_stored : ∀ {groups : List GroupTree} {values : List GroupValue},
    GroupTree.ListBuilt groups →
      (∀ token ∈ GroupTree.listTokens groups, token.version ≤ actingVersion) →
        (∀ field ∈ GroupTree.listAllFields groups, field.type.Placed ∧ field.Resolved) →
          GroupTree.ListSuits groups values →
            GroupTree.ListCarries actingVersion
              (GroupTree.measuredList (GroupTree.reducedList groups)) values
  | [], [], _, _, _, _ => by
      simp [GroupTree.reducedList, GroupTree.measuredList, GroupTree.ListCarries]
  | [], _ :: _, _, _, _, suits => by
      simp [GroupTree.ListSuits] at suits
  | _ :: _, [], _, _, _, suits => by
      simp [GroupTree.ListSuits] at suits
  | first :: others, value :: values, built, known, fields, suits => by
      rw [GroupTree.ListBuilt] at built
      rw [GroupTree.listTokens, List.forall_mem_append] at known
      rw [GroupTree.listAllFields, List.forall_mem_append] at fields
      rw [GroupTree.ListSuits] at suits
      rw [GroupTree.reducedList, GroupTree.measuredList, GroupTree.ListCarries]
      exact ⟨GroupTree.carries_stored built.1 known.1 fields.1 suits.1,
        GroupTree.listCarries_stored built.2 known.2 fields.2 suits.2⟩

/-- A body that is built is stored so that it can carry the bytes that suit it. -/
theorem BlockTree.carries_stored : ∀ {tree : BlockTree} {value : BlockValue}, tree.Built →
    (∀ token ∈ tree.tokens, token.version ≤ actingVersion) →
      (∀ field ∈ tree.allFields, field.type.Placed ∧ field.Resolved) → tree.Suits value →
        tree.reduced.measured.Carries actingVersion value
  | .block fields groups varData, .block content groupValues contents, built, known, all,
      suits => by
      rw [BlockTree.Built] at built
      rw [BlockTree.tokens, List.forall_mem_append, List.forall_mem_append] at known
      rw [BlockTree.allFields, List.forall_mem_append] at all
      rw [BlockTree.Suits] at suits
      obtain ⟨fieldsSuit, groupsSuit, many, fit⟩ := suits
      rw [BlockTree.reduced, BlockTree.measured, BlockTree.Carries]
      refine ⟨?_, GroupTree.listCarries_stored built.2.1 known.2.1 all.2 groupsSuit,
        VarDataTree.carries_stored built.2.2 known.2.2 many fit⟩
      intro field member
      rw [List.map_map] at member
      obtain ⟨source, sourceMember, rfl⟩ := List.mem_map.mp member
      have sourceKnown : ∀ token ∈ source.tokens, token.version ≤ actingVersion := by
        intro token tokenMember
        exact known.1 token (List.mem_flatMap.mpr ⟨source, sourceMember, tokenMember⟩)
      obtain ⟨placed, resolved⟩ := all.1 source sourceMember
      exact FieldTree.carries_stored (built.1 source sourceMember) sourceKnown placed resolved
        (fieldsSuit source sourceMember)

end

/-! ### The header -/

/-- What a reader knows of the header of four numbers of two bytes. -/
structure HeaderStructure.IsWritten (header : HeaderStructure) : Prop where
  blockLength : IsNumber header.blockLength 0
  templateId : IsNumber header.templateId 2
  schemaId : IsNumber header.schemaId 4
  schemaVersion : IsNumber header.schemaVersion 6
  length : header.encodedLength = 8

theorem SchemaDraft.header_of_build {draft : SchemaDraft} {schema : Schema}
    (isHeader : draft.headerTokens = FrontEnd.headerTokens) (completed : draft.build = .ok schema) :
    schema.header.IsWritten := by
  obtain ⟨measured, isMeasured, completed⟩ := ok_of_bind completed
  obtain ⟨header, isStructure, completed⟩ := ok_of_bind completed
  cases completed
  rw [isHeader] at isMeasured
  cases isMeasured
  cases isStructure
  exact ⟨⟨rfl, rfl, rfl⟩, ⟨rfl, rfl, rfl⟩, ⟨rfl, rfl, rfl⟩, ⟨rfl, rfl, rfl⟩, rfl⟩

/-- A number of two bytes is the same with a sign, in 64 bits and in 32. -/
theorem toInt_ofNat_of_lt {number : Nat} (fits : number < UInt16.size) :
    (UInt64.ofNat number).toInt64.toInt = number ∧
      (UInt64.ofNat number).toUInt32.toInt32.toInt = number := by
  have small : number < 65536 := fits
  constructor
  · change (UInt64.ofNat number).toBitVec.toInt = number
    rw [BitVec.toInt_eq_toNat_of_lt] <;> simp <;> omega
  · change (UInt64.ofNat number).toUInt32.toBitVec.toInt = number
    rw [BitVec.toInt_eq_toNat_of_lt] <;> simp <;> omega

/-- A number of the header is read at its offset. -/
theorem readField_bytesAt {buffer : Buffer} {number : UInt16} {offset : Nat} {token : Token}
    (stands : BytesAt buffer offset (littleEndian 2 number.toNat)) {tokenOffset : Int32}
    (isNumber : IsNumber token tokenOffset) (fixed : 0 ≤ tokenOffset)
    (same : tokenOffset.toNatClampNeg = offset) (small : offset ≤ lastPosition) :
    HeaderStructure.readField buffer 0 token = .ok (UInt64.ofNat number.toNat) := by
  have placed : positionOf 0 token = .ok offset := by
    rw [positionOf_eq (by rw [isNumber.placed]; exact fixed), isNumber.placed, same,
      advance_of_le (by omega), Nat.zero_add]
  rw [HeaderStructure.readField, placed]
  exact readUnsigned_bytesAt number.toNat_lt stands isNumber

/-- The numbers of a header that was written are read back. -/
theorem HeaderStructure.IsWritten.read_eq {header : HeaderStructure} (written : header.IsWritten)
    (blockLength templateId schemaId version : UInt16) {buffer : Buffer}
    (stands : BytesAt buffer 0 (headerBytes blockLength templateId schemaId version)) :
    ∃ numbers, header.read buffer 0 = .ok numbers ∧
      numbers.blockLength.toNat = blockLength.toNat ∧
      numbers.templateId.toInt = templateId.toNat ∧
      numbers.schemaId.toNat = schemaId.toNat ∧ numbers.version.toInt = version.toNat := by
  have secondAt : BytesAt buffer 2 (littleEndian 2 templateId.toNat) := stands.left.left.right
  have thirdAt : BytesAt buffer 4 (littleEndian 2 schemaId.toNat) := stands.left.right
  have fourthAt : BytesAt buffer 6 (littleEndian 2 version.toNat) := stands.right
  have first := readField_bytesAt stands.left.left.left written.blockLength (by decide) rfl
    (by decide)
  have second := readField_bytesAt secondAt written.templateId (by decide) rfl (by decide)
  have third := readField_bytesAt thirdAt written.schemaId (by decide) rfl (by decide)
  have fourth := readField_bytesAt fourthAt written.schemaVersion (by decide) rfl (by decide)
  refine ⟨⟨UInt64.ofNat blockLength.toNat, (UInt64.ofNat templateId.toNat).toInt64,
    UInt64.ofNat schemaId.toNat, (UInt64.ofNat version.toNat).toUInt32.toInt32⟩, ?_,
    toNat_ofNat_of_lt blockLength.toNat_lt, (toInt_ofNat_of_lt templateId.toNat_lt).1,
    toNat_ofNat_of_lt schemaId.toNat_lt, (toInt_ofNat_of_lt version.toNat_lt).2⟩
  simp only [HeaderStructure.read, HeaderStructure.readBlockLength,
    HeaderStructure.readTemplateId, HeaderStructure.readSchemaId,
    HeaderStructure.readSchemaVersion, first, second, third, fourth, bind, Except.bind, Except.map]

/-! ### The whole message -/

/-- A body that suits the message it was written for is read back behind the header. -/
theorem MessageTree.walk_bytesAt {message : MessageTree} {value : BlockValue} {buffer : Buffer}
    {position : Nat} (small : buffer.size ≤ lastPosition)
    (carries : message.body.Carries actingVersion value)
    (stands : BytesAt buffer position value.bytes) :
    message.walk ⟨buffer, actingVersion⟩ position value.content.length =
      ⟨message.deliver value, .ok (position + value.bytes.length)⟩ := by
  rw [MessageTree.walk, BlockTree.walk_bytesAt small message.body value position carries stands]
  rfl

/-- What a sender writes for a message that was put together by hand is read back: the four numbers
of the header, and behind it the values that the bytes stand for, up to the last byte. -/
theorem read_written {draft extended : SchemaDraft} {schema : Schema} {messageId : Int64}
    {message : MessageTree} (isHeader : draft.headerTokens = FrontEnd.headerTokens)
    (built : message.Built) (accepted : draft.addMessage messageId message.tokens = .ok extended)
    (countable : message.tokens.length < spanLimit) (completed : extended.build = .ok schema)
    (placed : ∀ field ∈ message.body.allFields, field.type.Placed)
    {blockLength templateId schemaId version : UInt16}
    (known : ∀ token ∈ message.tokens, token.version.toInt ≤ version.toNat)
    {value : BlockValue} (suits : message.body.Suits value)
    (isLength : value.content.length = blockLength.toNat)
    (small : (headerBytes blockLength templateId schemaId version ++ value.bytes).length ≤
      lastPosition) :
    let bytes := headerBytes blockLength templateId schemaId version ++ value.bytes
    ∃ numbers stored, schema.header.read bytes.toArray 0 = .ok numbers ∧
      numbers.blockLength.toNat = blockLength.toNat ∧
      numbers.templateId.toInt = templateId.toNat ∧
      numbers.schemaId.toNat = schemaId.toNat ∧ numbers.version.toInt = version.toNat ∧
      schema.messages.get? messageId = some stored ∧
      stored = message.reduced.measured.tokens ∧
      decode bytes.toArray schema.header.encodedLength numbers.version numbers.blockLength.toNat
          stored =
        ⟨message.reduced.measured.deliver value, .ok bytes.length⟩ := by
  intro bytes
  obtain ⟨resolved, isStored⟩ := SchemaDraft.addMessage_tokens accepted
  have spanned := SchemaDraft.spanned_of_addMessage accepted countable
  have sameHeader : extended.headerTokens = FrontEnd.headerTokens := by
    obtain ⟨_, _, _, _, _, _, _, _, _, rfl⟩ := SchemaDraft.addMessage_steps accepted
    exact isHeader
  have written := SchemaDraft.header_of_build sameHeader completed
  have whole : BytesAt bytes.toArray 0
      (headerBytes blockLength templateId schemaId version ++ value.bytes) :=
    ⟨[], [], by simp [bytes], rfl⟩
  obtain ⟨numbers, read, isBlockLength, isTemplate, isSchema, isVersion⟩ :=
    written.read_eq blockLength templateId schemaId version whole.left
  have stored : schema.messages.get? messageId = some message.reduced.measured.tokens := by
    obtain ⟨_, _, completed⟩ := ok_of_bind completed
    obtain ⟨_, _, completed⟩ := ok_of_bind completed
    cases completed
    exact isStored
  have bodyKnown : ∀ token ∈ message.body.tokens, token.version ≤ numbers.version := by
    intro token member
    rw [Int32.le_iff_toInt_le, isVersion]
    exact known token (List.mem_cons_of_mem _ (List.mem_append_left _ member))
  have carries : message.reduced.measured.body.Carries numbers.version value :=
    BlockTree.carries_stored built.1 bodyKnown
      (fun field member => ⟨placed field member, resolved field member⟩) suits
  have headerLength : (headerBytes blockLength templateId schemaId version).length = 8 := by
    simp [headerBytes]
  have bodyAt := whole.right
  rw [headerLength, Nat.zero_add] at bodyAt
  refine ⟨numbers, _, read, isBlockLength, isTemplate, isSchema, isVersion, stored, rfl, ?_⟩
  rw [written.length, isBlockLength, ← isLength, decode_tokens spanned,
    MessageTree.walk_bytesAt (by simpa [bytes] using small) carries bodyAt, List.length_append,
    headerLength]

/-- A quote: a price in a composite, a group of legs, and a note. -/
def quoteMessage : MessageTree :=
  let price := builtField "price" 1
    (builtComposite "Price" 0 2 [builtEncoding "mantissa" .uint16 0])
  let leg := BlockTree.block [builtField "quantity" 3 (builtEncoding "uint8" .uint8 0)] [] []
  builtMessage "Quote" 1 2
    (.block [price] [builtGroup "legs" 2 1 leg] [builtVarData "note" 4 none])

/-- A quote with two legs. -/
def quoteValue : BlockValue :=
  .block [1, 2] [.group 1 [.block [7] [] [], .block [9] [] []]] [[72, 105]]

theorem quoteMessage_built : quoteMessage.Built := by
  apply builtMessage_built
  rw [BlockTree.Built]
  refine ⟨?_, ?_, ?_⟩
  · intro field member
    rw [List.mem_singleton.mp member]
    apply builtField_built
    apply builtComposite_built
    rw [TypeTree.MembersBuilt, TypeTree.MembersBuilt]
    exact ⟨builtEncoding_built _ _ _, trivial⟩
  · rw [GroupTree.ListBuilt, GroupTree.ListBuilt]
    refine ⟨builtGroup_built _ _ _ ?_, trivial⟩
    rw [BlockTree.Built, GroupTree.ListBuilt]
    refine ⟨?_, trivial, by simp⟩
    intro field member
    rw [List.mem_singleton.mp member]
    exact builtField_built _ _ (builtEncoding_built _ _ _)
  · intro data member
    rw [List.mem_singleton.mp member]
    exact builtVarData_built _ _ _

theorem quoteMessage_placed : ∀ field ∈ quoteMessage.body.allFields, field.type.Placed := by
  intro field member
  have fields : quoteMessage.body.allFields =
      [builtField "price" 1 (builtComposite "Price" 0 2 [builtEncoding "mantissa" .uint16 0]),
        builtField "quantity" 3 (builtEncoding "uint8" .uint8 0)] := by
    rfl
  rw [fields] at member
  rcases List.mem_cons.mp member with rfl | other
  · simp [builtField, builtComposite, builtEncoding, TypeTree.Placed, TypeTree.MembersPlaced]
  · rw [List.mem_singleton.mp other]
    simp [builtField, builtEncoding, TypeTree.Placed]

theorem quoteMessage_suits : quoteMessage.body.Suits quoteValue := by
  rw [quoteMessage, builtMessage, quoteValue, BlockTree.Suits]
  refine ⟨?_, ?_, rfl, by decide⟩
  · intro field member
    rw [List.mem_singleton.mp member, builtField, builtComposite, TypeTree.Inside,
      TypeTree.MembersInside, TypeTree.MembersInside, builtEncoding, TypeTree.Inside, InsideBlock]
    decide
  · rw [GroupTree.ListSuits, builtGroup, GroupTree.Suits, GroupTree.ListSuits]
    refine ⟨⟨by decide, ?_⟩, trivial⟩
    intro entry member
    have shape : ∃ byte, entry = .block [byte] [] [] := by
      rcases List.mem_cons.mp member with rfl | other
      · exact ⟨7, rfl⟩
      · exact ⟨9, List.mem_singleton.mp other⟩
    obtain ⟨byte, rfl⟩ := shape
    rw [BlockTree.Suits, GroupTree.ListSuits]
    refine ⟨rfl, ?_, trivial, rfl, by simp⟩
    intro field fieldMember
    rw [List.mem_singleton.mp fieldMember, builtField, builtEncoding, TypeTree.Inside, InsideBlock,
      List.length_singleton]
    decide

/-- The quote with its two legs, written behind a header and read back from there. -/
theorem read_written_quote :
    ∃ extended schema, emptyDraft.headerTokens = FrontEnd.headerTokens ∧ quoteMessage.Built ∧
      emptyDraft.addMessage 1 quoteMessage.tokens = .ok extended ∧
      quoteMessage.tokens.length < spanLimit ∧ extended.build = .ok schema ∧
      (∀ field ∈ quoteMessage.body.allFields, field.type.Placed) ∧
      (∀ token ∈ quoteMessage.tokens, token.version.toInt ≤ (0 : UInt16).toNat) ∧
      quoteMessage.body.Suits quoteValue ∧ quoteValue.content.length = (2 : UInt16).toNat ∧
      (headerBytes 2 1 1 0 ++ quoteValue.bytes).length ≤ lastPosition ∧
      ∃ numbers stored,
        schema.header.read (headerBytes 2 1 1 0 ++ quoteValue.bytes).toArray 0 = .ok numbers ∧
        numbers.blockLength.toNat = (2 : UInt16).toNat ∧
        numbers.templateId.toInt = (1 : UInt16).toNat ∧
        numbers.schemaId.toNat = (1 : UInt16).toNat ∧
        numbers.version.toInt = (0 : UInt16).toNat ∧
        schema.messages.get? 1 = some stored ∧ stored = quoteMessage.reduced.measured.tokens ∧
        decode (headerBytes 2 1 1 0 ++ quoteValue.bytes).toArray schema.header.encodedLength
            numbers.version numbers.blockLength.toNat stored =
          ⟨quoteMessage.reduced.measured.deliver quoteValue,
            .ok (headerBytes 2 1 1 0 ++ quoteValue.bytes).length⟩ := by
  have succeeds : ((emptyDraft.addMessage 1 quoteMessage.tokens) >>=
      SchemaDraft.build).toOption.isSome = true := by
    decide +kernel
  obtain ⟨schema, both⟩ := exists_ok_of_isSome succeeds
  obtain ⟨extended, accepted, completed⟩ := ok_of_bind both
  have countable : quoteMessage.tokens.length < spanLimit := by decide
  have known : ∀ token ∈ quoteMessage.tokens, token.version.toInt ≤ (0 : UInt16).toNat := by
    decide +kernel
  have small : (headerBytes 2 1 1 0 ++ quoteValue.bytes).length ≤ lastPosition := by
    decide +kernel
  exact ⟨extended, schema, rfl, quoteMessage_built, accepted, countable, completed,
    quoteMessage_placed, known, quoteMessage_suits, rfl, small,
    read_written rfl quoteMessage_built accepted countable completed quoteMessage_placed known
      quoteMessage_suits rfl small⟩

/-- A message with a composite that starts one byte in front of the block, and a value inside it
that lies at the start of the block. -/
def misplacedMessage : MessageTree :=
  builtMessage "Misplaced" 1 2
    (.block [builtField "early" 1 (builtComposite "Early" (-1) 3 [builtEncoding "x" .uint16 1])]
      [] [])

theorem misplacedMessage_built : misplacedMessage.Built := by
  apply builtMessage_built
  rw [BlockTree.Built, GroupTree.ListBuilt]
  refine ⟨?_, trivial, by simp⟩
  intro field member
  rw [List.mem_singleton.mp member]
  apply builtField_built
  apply builtComposite_built
  rw [TypeTree.MembersBuilt, TypeTree.MembersBuilt]
  exact ⟨builtEncoding_built _ _ _, trivial⟩

theorem misplacedMessage_suits : misplacedMessage.body.Suits (.block [1, 2] [] []) := by
  rw [misplacedMessage, builtMessage, BlockTree.Suits, GroupTree.ListSuits]
  refine ⟨?_, trivial, rfl, by simp⟩
  intro field member
  rw [List.mem_singleton.mp member, builtField, builtComposite, TypeTree.Inside,
    TypeTree.MembersInside, TypeTree.MembersInside, builtEncoding, TypeTree.Inside, InsideBlock]
  decide

/-- The reader does not read a composite that starts in front of its block, even where every value
inside it lies in the block. -/
theorem read_misplaced :
    ∃ extended schema numbers stored,
      emptyDraft.headerTokens = FrontEnd.headerTokens ∧ misplacedMessage.Built ∧
      emptyDraft.addMessage 1 misplacedMessage.tokens = .ok extended ∧
      misplacedMessage.tokens.length < spanLimit ∧ extended.build = .ok schema ∧
      (∀ token ∈ misplacedMessage.tokens, token.version.toInt ≤ (0 : UInt16).toNat) ∧
      misplacedMessage.body.Suits (.block [1, 2] [] []) ∧
      schema.header.read (headerBytes 2 1 1 0 ++ [1, 2]).toArray 0 = .ok numbers ∧
      schema.messages.get? 1 = some stored ∧
      (decode (headerBytes 2 1 1 0 ++ [1, 2]).toArray schema.header.encodedLength
        numbers.version numbers.blockLength.toNat stored).outcome =
          .error ⟨["Misplaced"], .negativeOffset "Early" (-1)⟩ := by
  have run : ((emptyDraft.addMessage 1 misplacedMessage.tokens >>= SchemaDraft.build).toOption.bind
      fun schema => (schema.header.read (headerBytes 2 1 1 0 ++ [1, 2]).toArray 0).toOption.bind
        fun numbers => (schema.messages.get? 1).map fun stored =>
          (decode (headerBytes 2 1 1 0 ++ [1, 2]).toArray schema.header.encodedLength
            numbers.version numbers.blockLength.toNat stored).outcome) =
      some (.error ⟨["Misplaced"], .negativeOffset "Early" (-1)⟩) := by
    decide +kernel
  obtain ⟨schema, isSchema, run⟩ := Option.bind_eq_some_iff.mp run
  obtain ⟨numbers, isRead, run⟩ := Option.bind_eq_some_iff.mp run
  obtain ⟨stored, isStored, outcome⟩ := Option.map_eq_some_iff.mp run
  obtain ⟨extended, accepted, completed⟩ := ok_of_bind (ok_of_toOption isSchema)
  exact ⟨extended, schema, numbers, stored, rfl, misplacedMessage_built, accepted, by decide,
    completed, by decide +kernel, misplacedMessage_suits, ok_of_toOption isRead, isStored, outcome⟩

end WireSchema
