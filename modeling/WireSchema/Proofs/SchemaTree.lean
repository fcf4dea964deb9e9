/-
Module: WireSchema.Proofs.SchemaTree
Purpose: The tokens of a message are the flat form of a tree.  A message has a body of fields,
  groups and variable data, in this order.  A field wraps one encoding, enum, set or composite, and
  the members of a composite are of the same four kinds.  A group starts with a composite of two
  encodings, the length of an entry and the number of entries, and then has a body like that of a
  message.  Variable data holds one composite of two encodings, its length and its content.
Main exports: TypeTree, FieldTree, GroupTree, VarDataTree, BlockTree, MessageTree,
  MessageTree.tokens
-/
import WireSchema.Token

namespace WireSchema

/-!
A node of the tree keeps its opening and its closing token as they stand in the flat form, so that
the flat form is read off the tree and holds nothing that the tree does not.  The signals of the
tokens are part of the types.  An encoding spans itself alone, as every leaf of a schema does; the
spans of all other tokens are left open here.
-/

/-- A token of a given signal. -/
abbrev TokenOf (signal : Signal) := { token : Token // token.signal = signal }

/-- An encoding, which spans itself alone. -/
abbrev EncodingLeaf := { token : Token // token.signal = .encoding ∧ token.span = 1 }

/-- Tokens between an opening and a closing one. -/
def enclose (opening : Token) (inner : List Token) (closing : Token) : List Token :=
  opening :: (inner ++ [closing])

@[simp] theorem length_enclose (opening : Token) (inner : List Token) (closing : Token) :
    (enclose opening inner closing).length = inner.length + 2 := by
  simp [enclose]

/-- The first token with a signal and a name, if none of those in front of it has them. -/
theorem findIdx?_isNamed {signal : Signal} {name : String} {inner : List Token} {closing : Token}
    (notInside : ∀ token ∈ inner, Token.isNamed signal name token = false)
    (ends : Token.isNamed signal name closing = true) (rest : List Token) :
    (inner ++ closing :: rest).findIdx? (Token.isNamed signal name) = some inner.length := by
  rw [List.findIdx?_append, List.findIdx?_eq_none_iff.mpr notInside, List.findIdx?_cons, ends]
  simp

/-- The tokens from a place on. -/
theorem drop_eq_cons {tokens : List Token} {place : Nat} {token : Token}
    (isToken : tokens[place]? = some token) :
    tokens.drop place = token :: tokens.drop (place + 1) := by
  obtain ⟨inside, rfl⟩ := List.getElem?_eq_some_iff.mp isToken
  exact List.drop_eq_getElem_cons inside

/-- An enum with its values. -/
structure EnumTree where
  opening : TokenOf .beginEnum
  values : List (TokenOf .validValue)
  closing : TokenOf .endEnum

/-- A set with its choices. -/
structure SetTree where
  opening : TokenOf .beginSet
  choices : List (TokenOf .choice)
  closing : TokenOf .endSet

/-- What a field or a member of a composite can be. -/
inductive TypeTree where
  | encoding (leaf : EncodingLeaf)
  | enumeration (tree : EnumTree)
  | set (tree : SetTree)
  | composite (opening : TokenOf .beginComposite) (members : List TypeTree)
      (closing : TokenOf .endComposite)

/-- A field around its type. -/
structure FieldTree where
  opening : TokenOf .beginField
  type : TypeTree
  closing : TokenOf .endField

/-- A composite of two encodings: the dimensions of a group, or the length and the content of
variable data. -/
structure EncodingPair where
  opening : TokenOf .beginComposite
  first : TokenOf .encoding
  second : TokenOf .encoding
  closing : TokenOf .endComposite

/-- Variable data around its length and its content. -/
structure VarDataTree where
  opening : TokenOf .beginVarData
  layout : EncodingPair
  closing : TokenOf .endVarData

mutual

/-- A group: its dimensions, and the body of its entries. -/
inductive GroupTree where
  | group (opening : TokenOf .beginGroup) (dimensions : EncodingPair) (body : BlockTree)
      (closing : TokenOf .endGroup)

/-- The body of a message or of a group. -/
inductive BlockTree where
  | block (fields : List FieldTree) (groups : List GroupTree) (varData : List VarDataTree)

end

/-- The opening token of a group. -/
def GroupTree.opening : GroupTree → TokenOf .beginGroup
  | .group opening _ _ _ => opening

/-- A message around its body. -/
structure MessageTree where
  opening : TokenOf .beginMessage
  body : BlockTree
  closing : TokenOf .endMessage

/-! ### The flat form -/

/-- The tokens of an enum. -/
def EnumTree.tokens (tree : EnumTree) : List Token :=
  enclose tree.opening (tree.values.map (·.1)) tree.closing

/-- The tokens of a set. -/
def SetTree.tokens (tree : SetTree) : List Token :=
  enclose tree.opening (tree.choices.map (·.1)) tree.closing

mutual

/-- The tokens of a type. -/
def TypeTree.tokens : TypeTree → List Token
  | .encoding leaf => [leaf]
  | .enumeration tree => tree.tokens
  | .set tree => tree.tokens
  | .composite opening members closing => enclose opening (TypeTree.memberTokens members) closing

/-- The tokens of the members of a composite. -/
def TypeTree.memberTokens : List TypeTree → List Token
  | [] => []
  | member :: members => member.tokens ++ TypeTree.memberTokens members

end

/-- The tokens of a field. -/
def FieldTree.tokens (tree : FieldTree) : List Token :=
  enclose tree.opening tree.type.tokens tree.closing

/-- The tokens of a composite of two encodings. -/
def EncodingPair.tokens (tree : EncodingPair) : List Token :=
  enclose tree.opening [tree.first, tree.second] tree.closing

/-- The tokens of variable data. -/
def VarDataTree.tokens (tree : VarDataTree) : List Token :=
  enclose tree.opening tree.layout.tokens tree.closing

mutual

/-- The tokens of a group. -/
def GroupTree.tokens : GroupTree → List Token
  | .group opening dimensions body closing =>
    enclose opening (dimensions.tokens ++ body.tokens) closing

/-- The tokens of groups, one after another. -/
def GroupTree.listTokens : List GroupTree → List Token
  | [] => []
  | group :: groups => group.tokens ++ GroupTree.listTokens groups

/-- The tokens of a body. -/
def BlockTree.tokens : BlockTree → List Token
  | .block fields groups varData =>
    fields.flatMap FieldTree.tokens ++
      (GroupTree.listTokens groups ++ varData.flatMap VarDataTree.tokens)

end

mutual

/-- The fields in a group, at every depth. -/
def GroupTree.allFields : GroupTree → List FieldTree
  | .group _ _ body _ => body.allFields

/-- The fields in groups, one group after another. -/
def GroupTree.listAllFields : List GroupTree → List FieldTree
  | [] => []
  | group :: groups => group.allFields ++ GroupTree.listAllFields groups

/-- The fields in a body, at every depth. -/
def BlockTree.allFields : BlockTree → List FieldTree
  | .block fields groups _ => fields ++ GroupTree.listAllFields groups

end

/-- The tokens of a message. -/
def MessageTree.tokens (tree : MessageTree) : List Token :=
  enclose tree.opening tree.body.tokens tree.closing

end WireSchema
