/-
Module: WireSchema.Proofs.OlderProducer
Purpose: A producer that used an earlier version of the schema did not know the constructs that came
  in later.  Two things can be made of them.  They can be taken out of the tree, at every level
  (`MessageTree.asOf`), or a reader can pass over them and say for each that it is absent
  (`MessageTree.walkAsOf`).  What is said about an absent construct follows from its tokens alone.
Main exports: MessageTree.asOf, TypeTree.absence, MessageTree.walkAsOf
-/
import WireSchema.Proofs.TreeWalk

namespace WireSchema

/-- Whether the construct that a token opens came in after a version. -/
def Token.isNewer (token : Token) (version : Int32) : Bool :=
  version < token.version

/-! ### Taking newer constructs out -/

mutual

/-- The group without what came in after a version. -/
def GroupTree.asOf (version : Int32) : GroupTree → GroupTree
  | .group opening dimensions body closing =>
    .group opening dimensions (body.asOf version) closing

/-- The groups that a version knows, without what came in after it. -/
def GroupTree.listAsOf (version : Int32) : List GroupTree → List GroupTree
  | [] => []
  | group :: groups =>
    if group.opening.1.isNewer version then GroupTree.listAsOf version groups
    else group.asOf version :: GroupTree.listAsOf version groups

/-- The body without what came in after a version. -/
def BlockTree.asOf (version : Int32) : BlockTree → BlockTree
  | .block fields groups varData =>
    .block (fields.filter fun field => !field.opening.1.isNewer version)
      (GroupTree.listAsOf version groups)
      (varData.filter fun data => !data.opening.1.isNewer version)

end

/-- The message without what came in after a version. -/
def MessageTree.asOf (version : Int32) (tree : MessageTree) : MessageTree :=
  { tree with body := tree.body.asOf version }

/-! ### What is said about absent constructs -/

/-- The value of a type token of a field that the producer did not know: the constant, or else the
sentinel for an absent value. -/
def absentValue (field typeToken : Token) : FieldValue :=
  match constantOf? field typeToken with
  | some value => .constant value
  | none => .notPresent (typeToken.encoding.applicableNull.getD default)

/-- The value of an enum of a field that the producer did not know. -/
def EnumTree.absentValue (field : Token) (tree : EnumTree) : FieldValue :=
  if field.isConstant then
    .constant ((tree.values.head?.bind fun value => value.1.encoding.constValue).getD default)
  else WireSchema.absentValue field tree.opening

mutual

/-- The events of a type of a field that the producer did not know. -/
def TypeTree.absence (field : Token) : TypeTree → List Event
  | .encoding leaf => [.encoding field leaf (absentValue field leaf)]
  | .enumeration tree =>
    let value := tree.absentValue field
    [.enumeration field tree.tokens value (matchedValue? (tree.values.map (·.1)) value)]
  | .set tree => [.bitSet field tree.tokens (absentValue field tree.opening)]
  | .composite opening members closing =>
    let tokens := enclose opening (TypeTree.memberTokens members) closing
    .beginComposite field tokens ::
      (TypeTree.memberAbsences field members ++ [.endComposite field tokens])

/-- The events of the members of a composite. -/
def TypeTree.memberAbsences (field : Token) : List TypeTree → List Event
  | [] => []
  | member :: members => member.absence field ++ TypeTree.memberAbsences field members

end

/-- The events of a field that the producer did not know. -/
def FieldTree.absence (tree : FieldTree) : List Event :=
  tree.type.absence tree.opening

/-- The event of variable data that the producer did not know: they are empty. -/
def VarDataTree.absence (tree : VarDataTree) : Event :=
  .varData tree.opening [] tree.layout.second

/-! ### Passing over newer constructs -/

/-- Events that nothing is read for. -/
def Walk.deliver (events : List Event) : Walk Unit :=
  ⟨events, .ok ()⟩

variable (source : Source) (absences : Bool)

/-- Read the fields that the producer knew, with or without the events of the others. -/
def FieldTree.walkListAsOf (base : Nat) : List FieldTree → Walk Unit
  | [] => Walk.done ()
  | field :: fields => do
    if field.opening.1.isNewer source.actingVersion then
      Walk.deliver (if absences then field.absence else [])
    else field.walk source base
    FieldTree.walkListAsOf base fields

/-- Read the variable data that the producer knew, with or without the events of the others. -/
def VarDataTree.walkListAsOf (position : Nat) : List VarDataTree → Walk Nat
  | [] => Walk.done position
  | data :: others =>
    if data.opening.1.isNewer source.actingVersion then do
      Walk.deliver (if absences then [data.absence] else [])
      VarDataTree.walkListAsOf position others
    else do
      let next ← data.walk source position
      VarDataTree.walkListAsOf next others

mutual

/-- Read a group that the producer knew.  What came in later inside it is passed over. -/
def GroupTree.walkAsOf (position : Nat) : GroupTree → Walk Nat
  | .group opening dimensions body _ => do
    let size ← Walk.check (readGroupSize source opening dimensions.dimensions position)
    Walk.emit (.groupHeader opening size.count)
    Walk.inTurn (fun index start =>
      Walk.bracket (.beginGroup opening index size.count) (.endGroup opening index size.count)
        opening.1.name (body.walkAsOf start size.blockLength)) 0 size.count size.start

/-- Read the groups that the producer knew, with or without the events of the others: for each a
header without entries. -/
def GroupTree.walkListAsOf (position : Nat) : List GroupTree → Walk Nat
  | [] => Walk.done position
  | group :: groups =>
    if group.opening.1.isNewer source.actingVersion then do
      Walk.deliver (if absences then [.groupHeader group.opening 0] else [])
      GroupTree.walkListAsOf position groups
    else do
      let next ← group.walkAsOf position
      GroupTree.walkListAsOf next groups

/-- Read a block that starts at a position and what follows it, as far as the producer knew it. -/
def BlockTree.walkAsOf (start blockLength : Nat) : BlockTree → Walk Nat
  | .block fields groups varData => do
    FieldTree.walkListAsOf source absences start fields
    let position ← GroupTree.walkListAsOf (advance start blockLength) groups
    VarDataTree.walkListAsOf source absences position varData

end

/-- Read a message as far as the producer knew it. -/
def MessageTree.walkAsOf (offset blockLength : Nat) (tree : MessageTree) : Walk Nat :=
  Walk.bracket (.beginMessage tree.opening) (.endMessage tree.closing) tree.opening.1.name
    (tree.body.walkAsOf source absences offset blockLength)

end WireSchema
