/-
Module: WireSchema.Decoding.Traversal
Purpose: A block of bytes, the root block of a message or that of a group entry, is described by
  three sections of tokens: fields, groups, variable data.  Fields have fixed offsets within the
  block.  Groups and variable data follow the block one after another, so their positions are only
  known as the bytes are read.  The length of a block is that of the sender, who may know more
  fields, or fewer, than the tokens at hand.
Main exports: Source, construct, passSection, readValue, walkComponent, walkFields, walkVarData,
  walkGroups, walkBlock, decode
-/
import WireSchema.Decoding.Primitive
import WireSchema.Decoding.Walk

namespace WireSchema

/-!
Everywhere a list of tokens runs to the end of the message, and a limit says how many of them are
still inside the enclosing construct.  Spans come from the tokens themselves and are not trusted:
a span that leaves the list is a fault, and one that is merely wrong leads to some other walk, but
always to an end.
-/

/-- The bytes that are read and the version of the schema that they were written with. -/
structure Source where
  buffer : Buffer
  actingVersion : Int32

/-- The fault of a token that is not laid out as expected. -/
def layoutError (token : Token) (expected : String) : AccessError :=
  .unexpectedLayout token.name expected

/-- The tokens of the construct that the first token opens, both ends included. -/
def construct (token : Token) (following : List Token) : Except AccessError (List Token) :=
  let range := (token :: following).take token.span
  if range.length = token.span ∧ 2 ≤ range.length then .ok range
  else .error (layoutError token "a closed BEGIN/END construct")

/-- The constructs that a signal opens passed over: the tokens behind them, and how many of those
are inside the limit. -/
def passSection (signal : Signal) (limit : Nat) (tokens : List Token) : Nat × List Token :=
  match limit, tokens with
  | 0, _ => (0, tokens)
  | _, [] => (limit, [])
  | limit + 1, token :: rest =>
    if token.signal = signal then
      passSection signal (limit + 1 - token.span) ((token :: rest).drop token.span)
    else (limit + 1, token :: rest)
termination_by tokens.length
decreasing_by
  have positive := token.span_pos
  simp only [List.length_drop, List.length_cons]
  omega

/-- What is left behind the constructs that are passed over is the end of the tokens. -/
theorem passSection_suffix (signal : Signal) (limit : Nat) (tokens : List Token) :
    (passSection signal limit tokens).2 <:+ tokens := by
  fun_induction passSection signal limit tokens with
  | case1 => exact List.suffix_rfl
  | case2 => exact List.suffix_rfl
  | case3 limit token rest _ ih => exact ih.trans (List.drop_suffix _ _)
  | case4 => exact List.suffix_rfl

theorem passSection_length_le (signal : Signal) (limit : Nat) (tokens : List Token) :
    (passSection signal limit tokens).2.length ≤ tokens.length :=
  (passSection_suffix signal limit tokens).length_le

/-- Some scalars one after another, those already read at hand, the latest in front. -/
def readElements (source : Source) (type : PrimitiveType) (order : ByteOrder)
    (earlier : List Value) (position : Nat) : (count : Nat) → Except AccessError (List Value)
  | 0 => .ok earlier.reverse
  | count + 1 =>
    match readPrimitive source.buffer position type order with
    | .error problem => .error problem
    | .ok value =>
      readElements source type order (value :: earlier) (advance position type.size) count

/-- The value that the schema fixes for a type token of a field, if it fixes one. -/
def constantOf? (field typeToken : Token) : Option Value :=
  if field.isConstant || typeToken.isConstant then
    typeToken.encoding.constValue <|> field.encoding.constValue
  else none

/-- The value of a type token of a field, within a block or composite that starts at a base. -/
def readValue (source : Source) (field typeToken : Token) (base : Nat) :
    Except AccessError FieldValue :=
  match constantOf? field typeToken with
  | some value => .ok (.constant value)
  | none => do
    let some type := typeToken.encoding.primitiveType
      | .error (.missingPrimitiveType typeToken.name)
    if source.actingVersion < max field.version typeToken.version then
      .ok (.notPresent (typeToken.encoding.applicableNull.getD type.nullValue))
    else do
      let position ← positionOf base typeToken
      let count := typeToken.arrayLength
      if type = .char ∧ 1 < count then
        let content ← slice source.buffer position count
        .ok (.present [.bytes content])
      else
        let values ← readElements source type typeToken.encoding.byteOrder [] position count
        .ok (.present values)

/-- The value that a constant field takes from the one value left in its enum. -/
def constantEnumValue (field : Token) (validValues : List Token) :
    Except AccessError FieldValue :=
  match validValues.head?.bind (·.encoding.constValue) with
  | some value => .ok (.constant value)
  | none => .error (layoutError field "a constant enum holding its valid value")

/-- The first valid value of an enum that stands for the same integer. -/
def matchedValue? (validValues : List Token) (value : FieldValue) : Option Token :=
  value.first?.bind fun raw =>
    validValues.find? fun candidate =>
      match candidate.encoding.constValue with
      | some constant => constant.sameInteger raw
      | none => false

/-- Read an enum, given its tokens. -/
def walkEnum (source : Source) (field : Token) (range : List Token) (opening : Token)
    (base : Nat) : Walk Unit := do
  let validValues := (range.drop 1).dropLast
  let value ← Walk.check <|
    if field.isConstant then constantEnumValue field validValues
    else readValue source field opening base
  Walk.emit (.enumeration field range value (matchedValue? validValues value))

mutual

/-- Read what the first token describes: an encoding, an enum, a set, or a composite with all its
members.  Any other token describes nothing. -/
def walkComponent (source : Source) (field : Token) (base : Nat) (tokens : List Token) :
    Walk Unit :=
  match tokens with
  | [] => Walk.done ()
  | token :: following =>
    match token.signal with
    | .encoding => do
      let value ← Walk.check (readValue source field token base)
      Walk.emit (.encoding field token value)
    | .beginEnum => do
      let range ← Walk.check (construct token following)
      walkEnum source field range token base
    | .beginSet => do
      let range ← Walk.check (construct token following)
      let value ← Walk.check (readValue source field token base)
      Walk.emit (.bitSet field range value)
    | .beginComposite => do
      let range ← Walk.check (construct token following)
      let start ← Walk.check (positionOf base token)
      Walk.bracket (.beginComposite field range) (.endComposite field range) token.name
        (walkMembers source field start (range.length - 2) following)
    | _ => Walk.done ()
termination_by 2 * tokens.length

/-- Read the members of a composite one after another. -/
def walkMembers (source : Source) (field : Token) (start limit : Nat) (tokens : List Token) :
    Walk Unit :=
  match limit, tokens with
  | 0, _ => Walk.done ()
  | _, [] => Walk.done ()
  | limit + 1, token :: following => do
    walkComponent source field start (token :: following)
    walkMembers source field start (limit + 1 - token.span) ((token :: following).drop token.span)
termination_by 2 * tokens.length + 1
decreasing_by
  · simp only [List.length_cons]
    omega
  · have positive := token.span_pos
    simp only [List.length_drop, List.length_cons]
    omega

end

/-- Read the fields at the start of some tokens, in a block that starts at a base. -/
def walkFields (source : Source) (base limit : Nat) (tokens : List Token) : Walk Unit :=
  match limit, tokens with
  | 0, _ => Walk.done ()
  | _, [] => Walk.done ()
  | limit + 1, field :: following =>
    if field.signal = .beginField then do
      walkComponent source field base following
      walkFields source base (limit + 1 - field.span) ((field :: following).drop field.span)
    else Walk.done ()
termination_by tokens.length
decreasing_by
  have positive := field.span_pos
  simp only [List.length_drop, List.length_cons]
  omega

/-- Read the variable data at the start of some tokens; the result is the position behind it. -/
def walkVarData (source : Source) (position limit : Nat) (tokens : List Token) : Walk Nat :=
  match limit, tokens with
  | 0, _ => Walk.done position
  | _, [] => Walk.done position
  | limit + 1, field :: following =>
    if field.signal = .beginVarData then do
      let range ← Walk.check (construct field following)
      let (lengthToken, dataToken) ← Walk.check (varDataLayout field range)
      let (content, next) ← Walk.check (readVarData field lengthToken dataToken)
      Walk.emit (.varData field content dataToken)
      walkVarData source next (limit + 1 - field.span) ((field :: following).drop field.span)
    else Walk.done position
termination_by tokens.length
decreasing_by
  have positive := field.span_pos
  simp only [List.length_drop, List.length_cons]
  omega
where
  /-- The length token and the data token of variable data. -/
  varDataLayout (field : Token) (range : List Token) : Except AccessError (Token × Token) :=
    match range with
    | _ :: _ :: lengthToken :: dataToken :: _ =>
      if lengthToken.signal = .encoding ∧ dataToken.signal = .encoding then
        .ok (lengthToken, dataToken)
      else .error (layoutError field "var data led by a length/varData composite")
    | _ => .error (layoutError field "var data led by a length/varData composite")
  /-- The bytes of variable data and the position behind them; none for a newer field. -/
  readVarData (field lengthToken dataToken : Token) : Except AccessError (List UInt8 × Nat) :=
    if field.version ≤ source.actingVersion then do
      let lengthAt ← positionOf position lengthToken
      let length ← readUnsigned source.buffer lengthAt lengthToken
      let start ← positionOf position dataToken
      let content ← slice source.buffer start length.toNat
      .ok (content, start + content.length)
    else .ok ([], position)

/-- The composite with the dimensions of a group and its two encodings. -/
structure Dimensions where
  composite : Token
  blockLength : Token
  numInGroup : Token

/-- The dimensions at the start of a group. -/
def dimensionsOf (group : Token) (range : List Token) : Except AccessError Dimensions :=
  match range with
  | _ :: composite :: blockLength :: numInGroup :: _ =>
    if composite.signal = .beginComposite ∧ blockLength.signal = .encoding ∧
        numInGroup.signal = .encoding then
      .ok ⟨composite, blockLength, numInGroup⟩
    else .error (layoutError group "a group led by a blockLength/numInGroup dimensions composite")
  | _ => .error (layoutError group "a group led by a blockLength/numInGroup dimensions composite")

/-- A group as it was found in the buffer: the length of an entry, the number of entries, and the
position of the first one. -/
structure GroupSize where
  blockLength : Nat
  count : Nat
  start : Nat

/-- Read the dimensions of a group; a newer group has no entries.  The blocks of all entries have
to fit into the buffer. -/
def readGroupSize (source : Source) (group : Token) (dimensions : Dimensions) (position : Nat) :
    Except AccessError GroupSize := do
  let size ←
    if group.version ≤ source.actingVersion then do
      let blockLengthAt ← positionOf position dimensions.blockLength
      let blockLength ← readUnsigned source.buffer blockLengthAt dimensions.blockLength
      let numInGroupAt ← positionOf position dimensions.numInGroup
      let numInGroup ← readUnsigned source.buffer numInGroupAt dimensions.numInGroup
      let length ← fixedLength dimensions.composite
      .ok (GroupSize.mk blockLength.toNat numInGroup.toNat (advance position length))
    else .ok (GroupSize.mk 0 0 position)
  let needed := min (size.count * size.blockLength) lastPosition
  if source.buffer.size - size.start < needed then
    .error (.outOfBounds size.start needed source.buffer.size)
  else .ok size

mutual

/-- Read the groups at the start of some tokens; the result is the position behind them. -/
def walkGroups (source : Source) (position limit : Nat) (tokens : List Token) : Walk Nat :=
  match limit, tokens with
  | 0, _ => Walk.done position
  | _, [] => Walk.done position
  | limit + 1, group :: following =>
    if group.signal = .beginGroup then do
      let range ← Walk.check (construct group following)
      let dimensions ← Walk.check (dimensionsOf group range)
      let size ← Walk.check (readGroupSize source group dimensions position)
      Walk.emit (.groupHeader group size.count)
      let skipped := dimensions.composite.span
      let next ← Walk.iterate size.count
        (fun index start =>
          Walk.bracket (.beginGroup group index size.count) (.endGroup group index size.count)
            group.name
            (walkBlock source start size.blockLength (range.length - 2 - skipped)
              (following.drop skipped)))
        size.start
      walkGroups source next (limit + 1 - group.span) ((group :: following).drop group.span)
    else Walk.done position
termination_by 2 * tokens.length
decreasing_by
  · simp only [List.length_drop, List.length_cons]
    omega
  · have positive := group.span_pos
    simp only [List.length_drop, List.length_cons]
    omega

/-- Read a block and what follows it; the result is the position behind all of that. -/
def walkBlock (source : Source) (start blockLength limit : Nat) (tokens : List Token) :
    Walk Nat := do
  walkFields source start limit tokens
  let groups := passSection .beginField limit tokens
  let position ← walkGroups source (advance start blockLength) groups.1 groups.2
  let varData := passSection .beginGroup groups.1 groups.2
  walkVarData source position varData.1 varData.2
termination_by 2 * tokens.length + 1
decreasing_by
  have shorter := passSection_length_le .beginField limit tokens
  omega

end

/-- Read a message whose root block starts at an offset; the result is the position behind it. -/
def walkMessage (source : Source) (offset blockLength : Nat) (tokens : List Token) : Walk Nat :=
  let layout := "a message framed by BEGIN_MESSAGE/END_MESSAGE"
  match tokens with
  | [] => Walk.check (.error (.unexpectedLayout "" layout))
  | opening :: following =>
    match following.getLast? with
    | none => Walk.check (.error (layoutError opening layout))
    | some closing =>
      if opening.signal = .beginMessage ∧ closing.signal = .endMessage then
        Walk.bracket (.beginMessage opening) (.endMessage closing) opening.name
          (walkBlock source offset blockLength (following.length - 1) following)
      else Walk.check (.error (layoutError opening layout))

/-- Read the message at an offset of a buffer along its tokens, given the version of the schema and
the length of the root block that the sender used. -/
def decode (buffer : Buffer) (offset : Nat) (actingVersion : Int32) (blockLength : Nat)
    (tokens : List Token) : Walk Nat :=
  walkMessage ⟨buffer, actingVersion⟩ offset blockLength tokens

end WireSchema
