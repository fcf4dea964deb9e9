/-
Module: WireSchema.Proofs.GuardedReading
Purpose: The reader of a message as a machine carries it out.  Tokens are reached by their index in
  the list of the whole message and bytes by theirs in the buffer, and an index is a word of 64
  bits.  Each access by an index, each stretch between two indices, and each sum, difference,
  product or quotient of words is guarded.  Where such a step has no result the reading is trapped,
  which is not a fault of the message but the end of the program.
Main exports: Trap, Guarded, Guarded.decode
-/
import WireSchema.Decoding.Traversal

namespace WireSchema

/-!
A sum that may not be representable is either formed with a test, and then its absence is a fault of
the message, or it stops at the last position (`advance`).  All other sums are guarded.

The recursion is on indices.  A loop over the tokens ends because its index grows towards the end
of the construct; the blocks of a group and the members of a composite stand behind the token that
opens them; and the entries of a group are as many as the group header says.
-/

/-- A step without a result. -/
inductive Trap where
  | indexOutOfRange (index length : Nat)
  | stretchOutOfRange (start stop length : Nat)
  | unequalLengths (expected given : Nat)
  | overflow
  | underflow (minuend subtrahend : Nat)
  | divisionByZero (dividend : Nat)
deriving Repr, DecidableEq

/-- A walk whose steps are guarded: it is completed, with or without a fault, or trapped. -/
inductive Guarded (α : Type) where
  | completed (walk : Walk α)
  | trapped (trap : Trap)

namespace Guarded

variable {α β σ : Type}

/-- A guarded walk, and then another one if it ended well. -/
def andThen (first : Guarded α) (next : α → Guarded β) : Guarded β :=
  match first with
  | .trapped trap => .trapped trap
  | .completed walk =>
    match walk.outcome with
    | .error problem => .completed ⟨walk.events, .error problem⟩
    | .ok result =>
      match next result with
      | .trapped trap => .trapped trap
      | .completed second => .completed ⟨walk.events ++ second.events, second.outcome⟩

instance : Monad Guarded where
  pure result := .completed (Walk.done result)
  bind := andThen

/-- A single event. -/
def emit (event : Event) : Guarded Unit :=
  .completed (Walk.emit event)

/-- A step that delivers nothing and has no trap. -/
def check (step : Except AccessError α) : Guarded α :=
  .completed (Walk.check step)

/-- A guarded walk between two events that open and close a named construct. -/
def bracket (opening closing : Event) (name : String) (inner : Guarded α) : Guarded α :=
  match inner with
  | .trapped trap => .trapped trap
  | .completed walk => .completed (walk.bracket opening closing name)

/-- Guarded walks one after another from an index on, each from the state that the one before it
left. -/
def inTurn (step : Nat → σ → Guarded σ) (index : Nat) : (count : Nat) → σ → Guarded σ
  | 0, state => pure state
  | count + 1, state => do
    let next ← step index state
    inTurn step (index + 1) count next

/-! ### Steps that may have no result -/

/-- A sum of words. -/
def add (left right : Nat) : Guarded { sum : Nat // sum = left + right } :=
  if left + right < UInt64.size then pure ⟨left + right, rfl⟩ else .trapped .overflow

/-- A difference of words. -/
def subtract (left right : Nat) : Guarded { difference : Nat // difference = left - right } :=
  if right ≤ left then pure ⟨left - right, rfl⟩ else .trapped (.underflow left right)

/-- A product of words. -/
def multiply (left right : Nat) : Guarded { product : Nat // product = left * right } :=
  if left * right < UInt64.size then pure ⟨left * right, rfl⟩ else .trapped .overflow

/-- A quotient of words. -/
def divide (left right : Nat) : Guarded { quotient : Nat // quotient = left / right } :=
  if right = 0 then .trapped (.divisionByZero left) else pure ⟨left / right, rfl⟩

/-- The token at an index. -/
def tokenAt (tokens : List Token) (index : Nat) :
    Guarded { token : Token // index < tokens.length ∧ tokens[index]? = some token } :=
  if inside : index < tokens.length then
    pure ⟨tokens[index], inside, List.getElem?_eq_getElem inside⟩
  else .trapped (.indexOutOfRange index tokens.length)

/-- What stands from one index up to another. -/
def stretch (list : List α) (start stop : Nat) : Guarded (List α) :=
  if start ≤ stop ∧ stop ≤ list.length then pure ((list.take stop).drop start)
  else .trapped (.stretchOutOfRange start stop list.length)

/-- A copy of some bytes in the place of as many others. -/
def copy (length : Nat) (bytes : List UInt8) : Guarded (List UInt8) :=
  if bytes.length = length then pure bytes else .trapped (.unequalLengths length bytes.length)

/-! ### Scalars -/

/-- The sum of two words, if it is a word. -/
def sum? (left right : Nat) : Option Nat :=
  if left + right < UInt64.size then some (left + right) else none

/-- What stands from one index up to another, if both lie in the list. -/
def stretch? (list : List α) (start stop : Nat) : Option (List α) :=
  if start ≤ stop ∧ stop ≤ list.length then some ((list.take stop).drop start) else none

/-- A stretch of a buffer. -/
def readSlice (buffer : Buffer) (index length : Nat) : Guarded (List UInt8) :=
  match (sum? index length).bind (stretch? buffer.toList index) with
  | some content => pure content
  | none => check (.error (.outOfBounds index length buffer.size))

/-- The bytes of one scalar. -/
def window (buffer : Buffer) (index width : Nat) : Guarded (List UInt8) :=
  match (sum? index width).filter (· ≤ buffer.size) with
  | some stop => do
    let bytes ← stretch buffer.toList index stop
    copy width bytes
  | none => check (.error (.outOfBounds index width buffer.size))

/-- Read one scalar. -/
def readScalar (buffer : Buffer) (index : Nat) (type : PrimitiveType) (order : ByteOrder) :
    Guarded Value := do
  let bytes ← window buffer index type.size
  pure (valueOfWord type (ofLittleEndian (ordered order bytes)))

/-- Read an integer, such as a count or a length, as one without a sign. -/
def readNumber (buffer : Buffer) (index : Nat) (token : Token) : Guarded UInt64 :=
  match token.encoding.primitiveType with
  | none => check (.error (.missingPrimitiveType token.name))
  | some type =>
    if type.isFloat then check (.error (.notAnInteger token.name))
    else do
      let value ← readScalar buffer index type token.encoding.byteOrder
      match value.toUInt64? with
      | some number => pure number
      | none => check (.error (.notAnInteger token.name))

/-- The number of scalars in the encoded length. -/
def countScalars (token : Token) : Guarded Nat :=
  match token.encoding.primitiveType with
  | some type =>
    if 0 < token.encodedLength then do
      let ⟨count, _⟩ ← divide token.encodedLength.toNatClampNeg type.size
      pure count
    else pure 1
  | none => pure 1

variable (source : Source)

/-- The scalars of an array from an index on, those already read at hand, the latest in front. -/
def readArray (type : PrimitiveType) (order : ByteOrder) (position : Nat) (earlier : List Value)
    (index : Nat) : (count : Nat) → Guarded (List Value)
  | 0 => pure earlier.reverse
  | count + 1 => do
    let ⟨distance, _⟩ ← multiply index type.size
    let value ← readScalar source.buffer (advance position distance) type order
    readArray type order position (value :: earlier) (index + 1) count

/-- The value of a type token of a field, within a block or composite that starts at a base. -/
def fieldValue (field typeToken : Token) (base : Nat) : Guarded FieldValue :=
  match constantOf? field typeToken with
  | some value => pure (.constant value)
  | none =>
    match typeToken.encoding.primitiveType with
    | none => check (.error (.missingPrimitiveType typeToken.name))
    | some type =>
      if source.actingVersion < max field.version typeToken.version then
        pure (.notPresent (typeToken.encoding.applicableNull.getD type.nullValue))
      else do
        let position ← check (positionOf base typeToken)
        let count ← countScalars typeToken
        if type = .char ∧ 1 < count then do
          let content ← readSlice source.buffer position count
          pure (.present [.bytes content])
        else do
          let values ← readArray source type typeToken.encoding.byteOrder position [] 0 count
          pure (.present values)

/-! ### Constructs -/

variable (tokens : List Token)

/-- A construct in a list, from an index on. -/
structure ConstructAt (index : Nat) where
  range : List Token
  closed : 2 ≤ range.length
  inside : index + range.length ≤ tokens.length

theorem length_stretch? {list content : List α} {start stop : Nat}
    (found : stretch? list start stop = some content) :
    start ≤ stop ∧ stop ≤ list.length ∧ content.length = stop - start := by
  rw [stretch?, Option.ite_none_right_eq_some] at found
  obtain ⟨inside, isContent⟩ := found
  cases isContent
  rw [List.length_drop, List.length_take]
  omega

/-- The tokens from one index up to another as a construct, if they can be one. -/
def ConstructAt.upTo? (index stop : Nat) : Option (ConstructAt tokens index) :=
  match found : stretch? tokens index stop with
  | some range =>
    if closed : 2 ≤ range.length then
      some ⟨range, closed, by have inside := length_stretch? found; omega⟩
    else none
  | none => none

/-- The construct that the token at an index opens. -/
def constructAt (index : Nat) : Guarded (ConstructAt tokens index) := do
  let ⟨token, _⟩ ← tokenAt tokens index
  let ⟨stop, _⟩ ← add index token.span
  match ConstructAt.upTo? tokens index stop with
  | some found => pure found
  | none => check (.error (layoutError token "a closed BEGIN/END construct"))

/-- Read an enum that starts at an index. -/
def readEnum (field : Token) (index base : Nat) : Guarded Unit := do
  let ⟨range, _, _⟩ ← constructAt tokens index
  let ⟨last, _⟩ ← subtract range.length 1
  let validValues ← stretch range 1 last
  let value ←
    if field.isConstant then check (constantEnumValue field validValues)
    else do
      let ⟨opening, _⟩ ← tokenAt range 0
      fieldValue source field opening base
  emit (.enumeration field range value (matchedValue? validValues value))

/-- Read a set that starts at an index. -/
def readSet (field : Token) (index base : Nat) : Guarded Unit := do
  let ⟨range, _, _⟩ ← constructAt tokens index
  let ⟨opening, _⟩ ← tokenAt range 0
  let value ← fieldValue source field opening base
  emit (.bitSet field range value)

mutual

/-- Read what the token at an index describes: an encoding, an enum, a set, or a composite with
all its members.  Any other token describes nothing. -/
def readComponent (field : Token) (index base : Nat) : Guarded Unit := do
  let ⟨token, _⟩ ← tokenAt tokens index
  match token.signal with
  | .encoding => do
    let value ← fieldValue source field token base
    emit (.encoding field token value)
  | .beginEnum => readEnum source tokens field index base
  | .beginSet => readSet source tokens field index base
  | .beginComposite => do
    let ⟨range, _, _⟩ ← constructAt tokens index
    let ⟨opening, _⟩ ← tokenAt range 0
    let start ← check (positionOf base opening)
    let ⟨behind, _⟩ ← add index range.length
    let ⟨stop, _⟩ ← subtract behind 1
    let ⟨first, _⟩ ← add index 1
    bracket (.beginComposite field range) (.endComposite field range) opening.name
      (readMembers field start first stop)
  | _ => pure ()
termination_by 2 * (tokens.length - index)
decreasing_by
  omega

/-- Read the members of a composite from an index on. -/
def readMembers (field : Token) (start index stop : Nat) : Guarded Unit :=
  if index < stop then do
    let ⟨member, _⟩ ← tokenAt tokens index
    readComponent field index start
    let ⟨next, _⟩ ← add index member.span
    readMembers field start next stop
  else pure ()
termination_by 2 * (tokens.length - index) + 1
decreasing_by
  · omega
  · have positive := member.span_pos
    omega

end

/-- Read the fields from an index on, in a block that starts at a base; the result is the index
behind them. -/
def readFields (index stop base : Nat) : Guarded { next : Nat // index ≤ next } :=
  if inside : index < stop then do
    let ⟨field, _⟩ ← tokenAt tokens index
    if field.signal = .beginField then do
      let ⟨next, isNext⟩ ← add index field.span
      let ⟨typeIndex, _⟩ ← add index 1
      readComponent source tokens field typeIndex base
      let ⟨last, isLast⟩ ← readFields next stop base
      pure ⟨last, by omega⟩
    else pure ⟨index, Nat.le_refl index⟩
  else pure ⟨index, Nat.le_refl index⟩
termination_by stop - index
decreasing_by
  have positive := field.span_pos
  omega

/-- The bytes of variable data and the position behind them; none for a newer field. -/
def readContent (field lengthToken dataToken : Token) (position : Nat) :
    Guarded (List UInt8 × Nat) :=
  if field.version ≤ source.actingVersion then do
    let lengthAt ← check (positionOf position lengthToken)
    let length ← readNumber source.buffer lengthAt lengthToken
    let start ← check (positionOf position dataToken)
    let content ← readSlice source.buffer start length.toNat
    let ⟨next, _⟩ ← add start content.length
    pure (content, next)
  else pure ([], position)

/-- Read the variable data from an index on; the result is the position behind it. -/
def readVarData (index stop position : Nat) : Guarded Nat :=
  if index < stop then do
    let ⟨field, _⟩ ← tokenAt tokens index
    if field.signal = .beginVarData then do
      let ⟨range, _, _⟩ ← constructAt tokens index
      let (lengthToken, dataToken) ← check (walkVarData.varDataLayout field range)
      let (content, behind) ← readContent source field lengthToken dataToken position
      emit (.varData field content dataToken)
      let ⟨next, _⟩ ← add index range.length
      readVarData next stop behind
    else pure position
  else pure position
termination_by stop - index
decreasing_by
  omega

/-- Read the dimensions of a group; a newer group has no entries.  The blocks of all entries have
to fit into the buffer. -/
def readDimensions (group : Token) (dimensions : Dimensions) (position : Nat) :
    Guarded GroupSize := do
  let size ←
    if group.version ≤ source.actingVersion then do
      let blockLengthAt ← check (positionOf position dimensions.blockLength)
      let blockLength ← readNumber source.buffer blockLengthAt dimensions.blockLength
      let numInGroupAt ← check (positionOf position dimensions.numInGroup)
      let numInGroup ← readNumber source.buffer numInGroupAt dimensions.numInGroup
      let length ← check (fixedLength dimensions.composite)
      pure (GroupSize.mk blockLength.toNat numInGroup.toNat (advance position length))
    else pure (GroupSize.mk 0 0 position)
  let needed := min (size.count * size.blockLength) lastPosition
  if source.buffer.size - size.start < needed then
    check (.error (.outOfBounds size.start needed source.buffer.size))
  else pure size

mutual

/-- Read the groups from an index on; the results are the position and the index behind them. -/
def readGroups (index stop position : Nat) : Guarded (Nat × { next : Nat // index ≤ next }) :=
  if index < stop then do
    let ⟨group, _⟩ ← tokenAt tokens index
    if group.signal = .beginGroup then do
      let ⟨range, closed, _⟩ ← constructAt tokens index
      let ⟨behind, isBehind⟩ ← add index range.length
      let ⟨last, isLast⟩ ← subtract behind 1
      let dimensions ← check (dimensionsOf group range)
      let size ← readDimensions source group dimensions position
      emit (.groupHeader group size.count)
      let ⟨composite, isComposite⟩ ← add index 1
      let ⟨fields, isFields⟩ ← add composite dimensions.composite.span
      let reached ← inTurn
        (fun entry start =>
          bracket (.beginGroup group entry size.count) (.endGroup group entry size.count)
            group.name (readBlock fields last start size.blockLength))
        0 size.count size.start
      let ⟨following, isFollowing⟩ ← add last 1
      let (reached, ⟨next, isNext⟩) ← readGroups following stop reached
      pure (reached, ⟨next, by omega⟩)
    else pure (position, ⟨index, Nat.le_refl index⟩)
  else pure (position, ⟨index, Nat.le_refl index⟩)
termination_by 2 * (tokens.length - index)
decreasing_by
  · omega
  · omega

/-- Read a block, whose fields stand from an index on, and what follows it; the result is the
position behind all of that. -/
def readBlock (index stop start blockLength : Nat) : Guarded Nat := do
  let ⟨groups, _⟩ ← readFields source tokens index stop start
  let (reached, ⟨varData, _⟩) ← readGroups groups stop (advance start blockLength)
  readVarData source tokens varData stop reached
termination_by 2 * (tokens.length - index) + 1
decreasing_by
  omega

end

/-- Read a message whose root block starts at an offset; the result is the position behind it. -/
def readMessage (offset blockLength : Nat) : Guarded Nat :=
  let layout := "a message framed by BEGIN_MESSAGE/END_MESSAGE"
  match tokens with
  | [] => check (.error (.unexpectedLayout "" layout))
  | opening :: following =>
    match following.getLast? with
    | none => check (.error (layoutError opening layout))
    | some closing =>
      if opening.signal = .beginMessage ∧ closing.signal = .endMessage then do
        let ⟨last, _⟩ ← subtract tokens.length 1
        bracket (.beginMessage opening) (.endMessage closing) opening.name
          (readBlock source tokens 1 last offset blockLength)
      else check (.error (layoutError opening layout))

/-- Read the message at an offset of a buffer along its tokens, given the version of the schema and
the length of the root block that the sender used. -/
def decode (buffer : Buffer) (offset : UInt64) (actingVersion : Int32) (blockLength : UInt64)
    (tokens : List Token) : Guarded Nat :=
  readMessage ⟨buffer, actingVersion⟩ tokens offset.toNat blockLength.toNat

end Guarded

end WireSchema
