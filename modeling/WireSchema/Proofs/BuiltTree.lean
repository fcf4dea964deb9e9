/-
Module: WireSchema.Proofs.BuiltTree
Purpose: A tree is built if each of its constructs is one of those that `FrontEnd` puts together,
  around parts that are built.  The versions are left open, since any part can be dated afterwards.
Main exports: SameButVersions, BlockTree.Built, MessageTree.Built, builtMessage_built
-/
import WireSchema.FrontEnd.Constructs
import WireSchema.Proofs.StoredMessage
import WireSchema.Proofs.WireRoundTrip

namespace WireSchema

/-!
What follows from that is what a message needs to carry bytes: dimensions and lengths are numbers
of two bytes in the order of the wire, every value has a primitive type, and what is constant has
its value.
-/

/-- The token as if it had been there from the beginning. -/
def Token.unversioned (token : Token) : Token :=
  { token with version := 0 }

/-- The same tokens, but for their versions. -/
def SameButVersions (first second : List Token) : Prop :=
  first.map Token.unversioned = second.map Token.unversioned

/-- The encodings that can be put together. -/
inductive IsEncoding : Token → Prop where
  | array (name : String) (type : PrimitiveType) (offset : Int32) (count : Nat) :
    IsEncoding (FrontEnd.array name type offset count)
  | optional (name : String) (type : PrimitiveType) (offset : Int32) :
    IsEncoding (FrontEnd.optional name type offset)
  | constant {name : String} {type : PrimitiveType} {offset : Int32} {text : String}
    {token : Token} (read : FrontEnd.constant name type offset text = .ok token) :
    IsEncoding token

mutual

/-- A type is built of encodings, enums, sets and composites. -/
def TypeTree.Built : TypeTree → Prop
  | .encoding leaf => ∃ token, IsEncoding token ∧ SameButVersions [leaf.1] [token]
  | .enumeration tree =>
    ∃ name type offset values tokens, FrontEnd.enumType name type offset values = .ok tokens ∧
      SameButVersions tree.tokens tokens
  | .set tree =>
    ∃ name type offset choices,
      SameButVersions tree.tokens (FrontEnd.setType name type offset choices)
  | .composite opening members closing =>
    TypeTree.MembersBuilt members ∧
      ∃ name offset length,
        SameButVersions (enclose opening (TypeTree.memberTokens members) closing)
          (FrontEnd.composite name offset length (TypeTree.memberTokens members))

/-- The members of a composite are built. -/
def TypeTree.MembersBuilt : List TypeTree → Prop
  | [] => True
  | member :: members => member.Built ∧ TypeTree.MembersBuilt members

end

/-- A field is built around its type, or fixed to one value of an enum. -/
def FieldTree.Built (tree : FieldTree) : Prop :=
  tree.type.Built ∧
    ((∃ name id, SameButVersions tree.tokens (FrontEnd.field name id tree.type.tokens)) ∨
      ∃ name id reference enumTree, tree.type = .enumeration enumTree ∧
        SameButVersions tree.tokens
          (FrontEnd.constantEnumField name id reference tree.type.tokens))

/-- Variable data are built around a length and a content. -/
def VarDataTree.Built (tree : VarDataTree) : Prop :=
  ∃ name id characterEncoding,
    SameButVersions tree.tokens (FrontEnd.varData name id characterEncoding)

mutual

/-- A group is built around its dimensions and a body. -/
def GroupTree.Built : GroupTree → Prop
  | .group opening dimensions body closing =>
    body.Built ∧
      ∃ name id blockLength,
        SameButVersions (enclose opening (dimensions.tokens ++ body.tokens) closing)
          (FrontEnd.group name id blockLength body.tokens)

/-- Groups are built. -/
def GroupTree.ListBuilt : List GroupTree → Prop
  | [] => True
  | group :: groups => group.Built ∧ GroupTree.ListBuilt groups

/-- A body is built of fields, groups and variable data. -/
def BlockTree.Built : BlockTree → Prop
  | .block fields groups varData =>
    (∀ field ∈ fields, field.Built) ∧ GroupTree.ListBuilt groups ∧ ∀ data ∈ varData, data.Built

end

/-- A message is built around its body. -/
def MessageTree.Built (tree : MessageTree) : Prop :=
  tree.body.Built ∧
    ∃ name id blockLength,
      SameButVersions tree.tokens (FrontEnd.message name id blockLength tree.body.tokens)

/-! ### What the constructs are made of -/

theorem encoding_unversioned {first second : Token}
    (same : first.unversioned = second.unversioned) :
    first.encoding = second.encoding ∧ first.offset = second.offset ∧
      first.encodedLength = second.encodedLength := by
  simp only [Token.unversioned, Token.mk.injEq] at same
  obtain ⟨_, _, _, _, _, length, offset, _, encoding⟩ := same
  exact ⟨encoding, offset, length⟩

/-- Constructs that are the same but for versions are so in their parts. -/
theorem SameButVersions.enclose {opening opening' closing closing' : Token}
    {inner inner' : List Token}
    (same : SameButVersions (WireSchema.enclose opening inner closing)
      (WireSchema.enclose opening' inner' closing')) :
    opening.unversioned = opening'.unversioned ∧ SameButVersions inner inner' ∧
      closing.unversioned = closing'.unversioned := by
  rw [SameButVersions, WireSchema.enclose, WireSchema.enclose, List.map_cons, List.map_cons,
    List.map_append, List.map_append] at same
  obtain ⟨first, rest⟩ := List.cons.inj same
  obtain ⟨inside, last⟩ := List.append_inj' rest rfl
  exact ⟨first, inside, (List.cons.inj last).1⟩

theorem SameButVersions.append_right {first second suffix : List Token}
    (same : SameButVersions (first ++ suffix) (second ++ suffix)) :
    SameButVersions first second := by
  rw [SameButVersions, List.map_append, List.map_append] at same
  exact List.append_cancel_right same

/-- What is needed of an encoding that is put together. -/
theorem IsEncoding.known {token leaf : Token} (isEncoding : IsEncoding token)
    (same : SameButVersions [leaf] [token]) :
    leaf.encoding.primitiveType.isSome ∧
      (leaf.isConstant = true → leaf.encoding.constValue.isSome) := by
  obtain ⟨encoding, _⟩ := encoding_unversioned (List.cons.inj same).1
  rw [Token.isConstant, encoding]
  cases isEncoding with
  | array name type offset count => exact ⟨rfl, fun constant => by cases constant⟩
  | optional name type offset => exact ⟨rfl, fun constant => by cases constant⟩
  | constant read =>
      obtain ⟨value, _, read⟩ := ok_of_bind read
      cases read
      exact ⟨rfl, fun _ => rfl⟩

/-- What is needed of an enum that is put together. -/
theorem EnumTree.known_of_built {tree : EnumTree} (built : (TypeTree.enumeration tree).Built) :
    tree.opening.1.encoding.primitiveType.isSome ∧ tree.opening.1.isConstant = false ∧
      ∀ value ∈ tree.values, value.1.encoding.constValue.isSome := by
  rw [TypeTree.Built] at built
  obtain ⟨name, type, offset, values, tokens, made, same⟩ := built
  obtain ⟨results, areResults, made⟩ := ok_of_bind made
  cases made
  obtain ⟨opening, inside, _⟩ := SameButVersions.enclose same
  obtain ⟨openingEncoding, _⟩ := encoding_unversioned opening
  rw [Token.isConstant, openingEncoding]
  refine ⟨rfl, rfl, ?_⟩
  intro value member
  have dated : value.1.unversioned ∈ results.map Token.unversioned := by
    rw [← show _ = results.map Token.unversioned from inside]
    exact List.mem_map_of_mem (List.mem_map_of_mem member)
  obtain ⟨result, resultMember, isResult⟩ := List.mem_map.mp dated
  obtain ⟨source, _, made⟩ := mem_of_mapM areResults result resultMember
  obtain ⟨constant, _, made⟩ := ok_of_bind made
  cases made
  obtain ⟨encoding, _⟩ := encoding_unversioned isResult
  rw [← encoding]
  rfl

/-- What is needed of a set that is put together. -/
theorem SetTree.known_of_built {tree : SetTree} (built : (TypeTree.set tree).Built) :
    tree.opening.1.encoding.primitiveType.isSome ∧ tree.opening.1.isConstant = false := by
  rw [TypeTree.Built] at built
  obtain ⟨name, type, offset, choices, same⟩ := built
  obtain ⟨opening, _⟩ := SameButVersions.enclose same
  obtain ⟨encoding, _⟩ := encoding_unversioned opening
  rw [Token.isConstant, encoding]
  exact ⟨rfl, rfl⟩

/-- A composite that is put together is not constant. -/
theorem isConstant_of_built {opening : TokenOf .beginComposite} {members : List TypeTree}
    {closing : TokenOf .endComposite} (built : (TypeTree.composite opening members closing).Built) :
    opening.1.isConstant = false := by
  rw [TypeTree.Built] at built
  obtain ⟨_, name, offset, length, same⟩ := built
  obtain ⟨isOpening, _⟩ := SameButVersions.enclose same
  obtain ⟨encoding, _⟩ := encoding_unversioned isOpening
  rw [Token.isConstant, encoding]
  rfl

/-- The first token of a type. -/
def TypeTree.head : TypeTree → Token
  | .encoding leaf => leaf.1
  | .enumeration tree => tree.opening.1
  | .set tree => tree.opening.1
  | .composite opening _ _ => opening.1

theorem TypeTree.tokens_head (tree : TypeTree) : ∃ others, tree.tokens = tree.head :: others := by
  cases tree with
  | encoding leaf => exact ⟨[], by rw [TypeTree.tokens]; rfl⟩
  | enumeration tree => exact ⟨_, by rw [TypeTree.tokens, EnumTree.tokens]; rfl⟩
  | set tree => exact ⟨_, by rw [TypeTree.tokens, SetTree.tokens]; rfl⟩
  | composite opening members closing => exact ⟨_, by rw [TypeTree.tokens]; rfl⟩

/-- A field that is put together has the presence and the constant of its type, or else it is fixed
to a value of an enum. -/
theorem FieldTree.presence_of_built {tree : FieldTree} (built : tree.Built) :
    (tree.opening.1.isConstant = tree.type.head.isConstant ∧
      tree.opening.1.encoding.constValue = tree.type.head.encoding.constValue) ∨
      (tree.opening.1.isConstant = true ∧ ∃ enumTree, tree.type = .enumeration enumTree) := by
  obtain ⟨_, ⟨name, id, same⟩ | ⟨name, id, reference, enumTree, isEnum, same⟩⟩ := built
  · left
    obtain ⟨others, shape⟩ := tree.type.tokens_head
    obtain ⟨opening, _⟩ := SameButVersions.enclose same
    obtain ⟨encoding, _⟩ := encoding_unversioned opening
    rw [Token.isConstant, encoding, shape]
    exact ⟨rfl, rfl⟩
  · right
    obtain ⟨opening, _⟩ := SameButVersions.enclose same
    obtain ⟨encoding, _⟩ := encoding_unversioned opening
    rw [Token.isConstant, encoding]
    exact ⟨rfl, enumTree, isEnum⟩

theorem isNumber_of_same {token : Token} {name : String} {offset : Int32}
    (same : token.unversioned = (FrontEnd.encoding name .uint16 offset).unversioned) :
    IsNumber token offset := by
  obtain ⟨encoding, isOffset, _⟩ := encoding_unversioned same
  exact ⟨by rw [encoding]; rfl, by rw [encoding]; rfl, isOffset⟩

/-- Variable data that are put together have their length in front of their content. -/
theorem VarDataTree.layout_of_built {tree : VarDataTree} (built : tree.Built) :
    tree.layout.IsVarData := by
  obtain ⟨name, id, characterEncoding, same⟩ := built
  obtain ⟨_, layout, _⟩ := SameButVersions.enclose same
  obtain ⟨_, pair, _⟩ := SameButVersions.enclose layout
  obtain ⟨first, rest⟩ := List.cons.inj pair
  obtain ⟨second, _⟩ := List.cons.inj rest
  exact ⟨isNumber_of_same first, (encoding_unversioned second).2.1⟩

/-- The dimensions of a group that is put together. -/
theorem EncodingPair.dimensions_of_built {tree : EncodingPair}
    (same : SameButVersions tree.tokens FrontEnd.groupSizeEncoding) : tree.IsDimensions := by
  obtain ⟨opening, pair, _⟩ := SameButVersions.enclose same
  obtain ⟨first, rest⟩ := List.cons.inj pair
  obtain ⟨second, _⟩ := List.cons.inj rest
  exact ⟨isNumber_of_same first, isNumber_of_same second, (encoding_unversioned opening).2.2⟩

theorem GroupTree.dimensions_of_built {opening : TokenOf .beginGroup} {dimensions : EncodingPair}
    {body : BlockTree} {closing : TokenOf .endGroup}
    (built : (GroupTree.group opening dimensions body closing).Built) :
    dimensions.IsDimensions ∧ body.Built := by
  rw [GroupTree.Built] at built
  obtain ⟨bodyBuilt, name, id, blockLength, same⟩ := built
  obtain ⟨_, inside, _⟩ := SameButVersions.enclose same
  exact ⟨EncodingPair.dimensions_of_built inside.append_right, bodyBuilt⟩

/-! ### Trees around given parts -/

theorem SameButVersions.refl (tokens : List Token) : SameButVersions tokens tokens :=
  rfl

/-- A required scalar. -/
def builtEncoding (name : String) (type : PrimitiveType) (offset : Int32) : TypeTree :=
  .encoding ⟨FrontEnd.encoding name type offset, rfl, rfl⟩

/-- A composite around its members. -/
def builtComposite (name : String) (offset length : Int32) (members : List TypeTree) : TypeTree :=
  .composite ⟨{ signal := .beginComposite, name, offset, encodedLength := length }, rfl⟩ members
    ⟨{ signal := .endComposite, name, offset, encodedLength := length }, rfl⟩

/-- A field around its type. -/
def builtField (name : String) (id : Int32) (type : TypeTree) : FieldTree :=
  let mark := fun signal : Signal =>
    ({ signal, name, id, version := type.head.version, offset := type.head.offset,
       encodedLength := type.head.encodedLength,
       encoding :=
        { presence := type.head.encoding.presence,
          constValue := type.head.encoding.constValue } } : Token)
  ⟨⟨mark .beginField, rfl⟩, type, ⟨mark .endField, rfl⟩⟩

/-- A group around its body. -/
def builtGroup (name : String) (id blockLength : Int32) (body : BlockTree) : GroupTree :=
  let mark := fun signal : Signal =>
    ({ signal, name, id, offset := Token.variableLength, encodedLength := blockLength } : Token)
  let dimensions : EncodingPair :=
    ⟨⟨{ signal := .beginComposite, name := "groupSizeEncoding", encodedLength := 4 }, rfl⟩,
      ⟨FrontEnd.encoding "blockLength" .uint16 0, rfl⟩,
      ⟨FrontEnd.encoding "numInGroup" .uint16 2, rfl⟩,
      ⟨{ signal := .endComposite, name := "groupSizeEncoding", encodedLength := 4 }, rfl⟩⟩
  .group ⟨mark .beginGroup, rfl⟩ dimensions body ⟨mark .endGroup, rfl⟩

/-- Variable data around their length and content. -/
def builtVarData (name : String) (id : Int32) (characterEncoding : Option String) :
    VarDataTree :=
  let mark := fun signal : Signal =>
    ({ signal, name, id, offset := Token.variableLength,
       encodedLength := Token.variableLength } : Token)
  let ends := fun signal : Signal =>
    ({ signal, name := "varDataEncoding", encodedLength := Token.variableLength } : Token)
  let content : Token :=
    { signal := .encoding, name := "varData", offset := 2, encodedLength := Token.variableLength,
      encoding := { primitiveType := some .uint8, characterEncoding } }
  ⟨⟨mark .beginVarData, rfl⟩,
    ⟨⟨ends .beginComposite, rfl⟩, ⟨FrontEnd.encoding "length" .uint16 0, rfl⟩, ⟨content, rfl⟩,
      ⟨ends .endComposite, rfl⟩⟩,
    ⟨mark .endVarData, rfl⟩⟩

/-- A message around its body. -/
def builtMessage (name : String) (id blockLength : Int32) (body : BlockTree) : MessageTree :=
  let mark := fun signal : Signal =>
    ({ signal, name, id, encodedLength := blockLength } : Token)
  ⟨⟨mark .beginMessage, rfl⟩, body, ⟨mark .endMessage, rfl⟩⟩

theorem builtEncoding_built (name : String) (type : PrimitiveType) (offset : Int32) :
    (builtEncoding name type offset).Built := by
  rw [builtEncoding, TypeTree.Built]
  exact ⟨_, .array name type offset 1, .refl _⟩

theorem builtComposite_built (name : String) (offset length : Int32) {members : List TypeTree}
    (built : TypeTree.MembersBuilt members) :
    (builtComposite name offset length members).Built := by
  rw [builtComposite, TypeTree.Built]
  exact ⟨built, name, offset, length, .refl _⟩

theorem builtField_built (name : String) (id : Int32) {type : TypeTree} (built : type.Built) :
    (builtField name id type).Built := by
  refine ⟨built, .inl ⟨name, id, ?_⟩⟩
  obtain ⟨others, shape⟩ := type.tokens_head
  have head : type.tokens.headD { signal := .encoding, name } = type.head := by
    rw [shape]
    rfl
  rw [FrontEnd.field]
  simp only [show (builtField name id type).type.tokens = type.tokens from rfl, head]
  exact .refl _

theorem builtGroup_built (name : String) (id blockLength : Int32) {body : BlockTree}
    (built : body.Built) : (builtGroup name id blockLength body).Built := by
  rw [builtGroup, GroupTree.Built]
  exact ⟨built, name, id, blockLength, .refl _⟩

theorem builtVarData_built (name : String) (id : Int32) (characterEncoding : Option String) :
    (builtVarData name id characterEncoding).Built :=
  ⟨name, id, characterEncoding, .refl _⟩

theorem builtMessage_built (name : String) (id blockLength : Int32) {body : BlockTree}
    (built : body.Built) : (builtMessage name id blockLength body).Built :=
  ⟨built, name, id, blockLength, .refl _⟩

end WireSchema
