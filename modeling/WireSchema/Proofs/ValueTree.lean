/-
Module: WireSchema.Proofs.ValueTree
Purpose: What a sender writes for a message: the bytes of the root block, then for every group its
  entries, each with a block and what belongs to it, then the content of the variable data.  `bytes`
  puts the pieces one after another.  `deliver` says, without a buffer and without positions in it,
  what a reader has to be told: the values that the bytes of each block stand for, the number of
  entries of each group, and the content of the variable data.
Main exports: BlockValue, BlockValue.bytes, TypeTree.deliver, MessageTree.deliver
-/
import WireSchema.Bytes.LittleEndian
import WireSchema.Proofs.TreeWalk

namespace WireSchema

mutual

/-- A block with its groups and variable data. -/
inductive BlockValue where
  | block (content : List UInt8) (groups : List GroupValue) (varData : List (List UInt8))

/-- The entries of a group, each with a block of the same length. -/
inductive GroupValue where
  | group (blockLength : UInt16) (entries : List BlockValue)

end

/-- The bytes of the block alone. -/
def BlockValue.content : BlockValue → List UInt8
  | .block content _ _ => content

/-! ### Writing -/

mutual

/-- The bytes of a block and of everything that follows it. -/
def BlockValue.bytes : BlockValue → List UInt8
  | .block content groups varData =>
    content ++ (GroupValue.listBytes groups ++ varData.flatMap varDataBytes)

/-- The bytes of a group: its dimensions and its entries. -/
def GroupValue.bytes : GroupValue → List UInt8
  | .group blockLength entries =>
    groupHeaderBytes blockLength (UInt16.ofNat entries.length) ++ BlockValue.listBytes entries

/-- The bytes of groups one after another. -/
def GroupValue.listBytes : List GroupValue → List UInt8
  | [] => []
  | group :: groups => group.bytes ++ GroupValue.listBytes groups

/-- The bytes of entries one after another. -/
def BlockValue.listBytes : List BlockValue → List UInt8
  | [] => []
  | entry :: entries => entry.bytes ++ BlockValue.listBytes entries

end

/-! ### What is delivered -/

/-- The scalars that follow each other in a block. -/
def elementsIn (type : PrimitiveType) (order : ByteOrder) (block : List UInt8) :
    (count : Nat) → (position : Nat) → List Value
  | 0, _ => []
  | count + 1, position =>
    valueOfWord type (ofLittleEndian (ordered order ((block.drop position).take type.size))) ::
      elementsIn type order block count (position + type.size)

/-- The value of a type token of a field: the constant, or what stands in the block at the base and
the offset of the token. -/
def valueIn (block : List UInt8) (field typeToken : Token) (base : Nat) : FieldValue :=
  match constantOf? field typeToken with
  | some value => .constant value
  | none =>
    let position := base + typeToken.offset.toNatClampNeg
    let type := typeToken.encoding.primitiveType.getD default
    if type = .char ∧ 1 < typeToken.arrayLength then
      .present [.bytes ((block.drop position).take typeToken.arrayLength)]
    else
      .present
        (elementsIn type typeToken.encoding.byteOrder block typeToken.arrayLength position)

/-- The value of an enum: the one value of a constant field, or else what stands in the block. -/
def EnumTree.valueIn (block : List UInt8) (field : Token) (base : Nat) (tree : EnumTree) :
    FieldValue :=
  if field.isConstant then
    .constant ((tree.values.head?.bind fun value => value.1.encoding.constValue).getD default)
  else WireSchema.valueIn block field tree.opening base

mutual

/-- The events of a type at a base within a block. -/
def TypeTree.deliver (block : List UInt8) (field : Token) (base : Nat) : TypeTree → List Event
  | .encoding leaf => [.encoding field leaf (valueIn block field leaf base)]
  | .enumeration tree =>
    let value := tree.valueIn block field base
    [.enumeration field tree.tokens value (matchedValue? (tree.values.map (·.1)) value)]
  | .set tree => [.bitSet field tree.tokens (valueIn block field tree.opening base)]
  | .composite opening members closing =>
    let tokens := enclose opening (TypeTree.memberTokens members) closing
    .beginComposite field tokens ::
      (TypeTree.deliverMembers block field (base + opening.1.offset.toNatClampNeg) members ++
        [.endComposite field tokens])

/-- The events of the members of a composite that starts at a base. -/
def TypeTree.deliverMembers (block : List UInt8) (field : Token) (base : Nat) :
    List TypeTree → List Event
  | [] => []
  | member :: members =>
    member.deliver block field base ++ TypeTree.deliverMembers block field base members

end

/-- The events of a field of a block. -/
def FieldTree.deliver (block : List UInt8) (tree : FieldTree) : List Event :=
  tree.type.deliver block tree.opening 0

/-- The events of variable data with some contents. -/
def VarDataTree.deliverList : List VarDataTree → List (List UInt8) → List Event
  | data :: others, content :: contents =>
    .varData data.opening content data.layout.second :: VarDataTree.deliverList others contents
  | _, _ => []

mutual

/-- The events of a group: the number of its entries, and each entry between two events. -/
def GroupTree.deliver : GroupTree → GroupValue → List Event
  | .group opening _ body _, .group _ entries =>
    .groupHeader opening entries.length ::
      entries.zipIdx.flatMap fun (entry, index) =>
        .beginGroup opening index entries.length ::
          (body.deliver entry ++ [.endGroup opening index entries.length])

/-- The events of groups one after another. -/
def GroupTree.deliverList : List GroupTree → List GroupValue → List Event
  | group :: groups, value :: values => group.deliver value ++ GroupTree.deliverList groups values
  | _, _ => []

/-- The events of a block and of everything that follows it. -/
def BlockTree.deliver : BlockTree → BlockValue → List Event
  | .block fields groups varData, .block content groupValues contents =>
    fields.flatMap (FieldTree.deliver content) ++
      (GroupTree.deliverList groups groupValues ++ VarDataTree.deliverList varData contents)

end

/-- The events of a message. -/
def MessageTree.deliver (tree : MessageTree) (value : BlockValue) : List Event :=
  .beginMessage tree.opening :: (tree.body.deliver value ++ [.endMessage tree.closing])

end WireSchema
