/-
Module: WireSchema.Proofs.TreeWalk
Purpose: A reader that follows the schema tree instead of the flat list of tokens.  It recurs on the
  parts of the tree, so that no span is counted and no token is passed over: what is read next is
  the next part of the tree.  Lists of tokens occur in the events alone.
Main exports: TypeTree.walk, FieldTree.walk, GroupTree.walk, BlockTree.walk, MessageTree.walk
-/
import WireSchema.Decoding.Traversal
import WireSchema.Proofs.SchemaTree
import WireSchema.Proofs.WalkLaws

namespace WireSchema

/-!
Positions move in one direction.  The fields of a block are read at its start plus their offsets,
the members of a composite at its start plus theirs.  The groups follow at the start of the block
plus the length that the sender gave, each entry starts where the one before it ended, and the
variable data follow the last group.
-/

/-- Read an enum: the one value of a constant field, or else the value at the base. -/
def EnumTree.walk (source : Source) (field : Token) (base : Nat) (tree : EnumTree) :
    Walk Unit := do
  let values := tree.values.map (·.1)
  let value ← Walk.check <|
    if field.isConstant then constantEnumValue field values
    else readValue source field tree.opening base
  Walk.emit (.enumeration field tree.tokens value (matchedValue? values value))

/-- Read a set. -/
def SetTree.walk (source : Source) (field : Token) (base : Nat) (tree : SetTree) :
    Walk Unit := do
  let value ← Walk.check (readValue source field tree.opening base)
  Walk.emit (.bitSet field tree.tokens value)

mutual

/-- Read a type that starts at a base. -/
def TypeTree.walk (source : Source) (field : Token) (base : Nat) : TypeTree → Walk Unit
  | .encoding leaf => do
    let value ← Walk.check (readValue source field leaf base)
    Walk.emit (.encoding field leaf value)
  | .enumeration tree => tree.walk source field base
  | .set tree => tree.walk source field base
  | .composite opening members closing => do
    let tokens := enclose opening (TypeTree.memberTokens members) closing
    let start ← Walk.check (positionOf base opening)
    Walk.bracket (.beginComposite field tokens) (.endComposite field tokens) opening.1.name
      (TypeTree.walkMembers source field start members)

/-- Read the members of a composite that starts at a position. -/
def TypeTree.walkMembers (source : Source) (field : Token) (start : Nat) :
    List TypeTree → Walk Unit
  | [] => Walk.done ()
  | member :: members => do
    member.walk source field start
    TypeTree.walkMembers source field start members

end

/-- Read a field of a block that starts at a base. -/
def FieldTree.walk (source : Source) (base : Nat) (tree : FieldTree) : Walk Unit :=
  tree.type.walk source tree.opening base

/-- Read the fields of a block that starts at a base. -/
def FieldTree.walkList (source : Source) (base : Nat) : List FieldTree → Walk Unit
  | [] => Walk.done ()
  | field :: fields => do
    field.walk source base
    FieldTree.walkList source base fields

/-- Read variable data; the result is the position behind it. -/
def VarDataTree.walk (source : Source) (position : Nat) (tree : VarDataTree) : Walk Nat := do
  let (content, next) ← Walk.check <|
    walkVarData.readVarData source position tree.opening tree.layout.first tree.layout.second
  Walk.emit (.varData tree.opening content tree.layout.second)
  Walk.done next

/-- Read variable data one after another. -/
def VarDataTree.walkList (source : Source) (position : Nat) : List VarDataTree → Walk Nat
  | [] => Walk.done position
  | data :: others => do
    let next ← data.walk source position
    VarDataTree.walkList source next others

/-- The dimensions of a group as the reader of sizes takes them. -/
def EncodingPair.dimensions (tree : EncodingPair) : Dimensions :=
  ⟨tree.opening, tree.first, tree.second⟩

mutual

/-- Read a group; the result is the position behind its last entry. -/
def GroupTree.walk (source : Source) (position : Nat) : GroupTree → Walk Nat
  | .group opening dimensions body _ => do
    let size ← Walk.check (readGroupSize source opening dimensions.dimensions position)
    Walk.emit (.groupHeader opening size.count)
    Walk.inTurn (fun index start =>
      Walk.bracket (.beginGroup opening index size.count) (.endGroup opening index size.count)
        opening.1.name (body.walk source start size.blockLength)) 0 size.count size.start

/-- Read groups one after another. -/
def GroupTree.walkList (source : Source) (position : Nat) : List GroupTree → Walk Nat
  | [] => Walk.done position
  | group :: groups => do
    let next ← group.walk source position
    GroupTree.walkList source next groups

/-- Read a block that starts at a position and what follows it; the result is the position behind
all of that. -/
def BlockTree.walk (source : Source) (start blockLength : Nat) : BlockTree → Walk Nat
  | .block fields groups varData => do
    FieldTree.walkList source start fields
    let position ← GroupTree.walkList source (advance start blockLength) groups
    VarDataTree.walkList source position varData

end

/-- Read a message whose root block starts at an offset. -/
def MessageTree.walk (source : Source) (offset blockLength : Nat) (tree : MessageTree) :
    Walk Nat :=
  Walk.bracket (.beginMessage tree.opening) (.endMessage tree.closing) tree.opening.1.name
    (tree.body.walk source offset blockLength)

end WireSchema
