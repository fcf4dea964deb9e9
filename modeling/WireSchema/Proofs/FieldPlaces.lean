/-
Module: WireSchema.Proofs.FieldPlaces
Purpose: The schema gives each value of a field a place in the block of the field: the sum of the
  offsets on the way to it.  A value that is present was read from the bytes at its place, and these
  lie in the buffer (`TypeTree.readAt_of_told`).  The length of the block is not looked at.  A value
  lies in the block of the sender exactly if the block is long enough for its place; otherwise it is
  read all the same, from the bytes that follow the block (`decode_places`).
Main exports: ReadAt, TypeTree.places, TypeTree.readAt_of_told, decode_places, decode_outsideBlock
-/
import WireSchema.Proofs.EndPosition
import WireSchema.Proofs.Findings

namespace WireSchema

/-! ### Bytes at a position -/

section

variable {buffer : Buffer} {position : Nat} {bytes : List UInt8}

/-- Bytes behind the start of a block stand in the block if they do not pass its end. -/
theorem BytesAt.in_block_iff {start distance : Nat}
    (stands : BytesAt buffer (start + distance) bytes) (length : Nat) :
    BytesAt (buffer.extract start (start + length)) distance bytes ↔
      distance + bytes.length ≤ length := by
  rw [bytesAt_iff] at stands
  obtain ⟨inside, isPart⟩ := stands
  rw [bytesAt_iff, Array.size_extract, Array.extract_extract]
  constructor
  · rintro ⟨fits, _⟩
    omega
  · intro fits
    refine ⟨by omega, ?_⟩
    rw [← Nat.add_assoc, Nat.min_eq_left (by omega), isPart]

end

/-! ### The bytes of a value -/

/-- The number of bytes that are read for a token. -/
def Token.extent (token : Token) : Nat :=
  token.arrayLength * token.width

/-- The values that some bytes hold for a token. -/
def Token.valuesIn (token : Token) (bytes : List UInt8) : List Value :=
  let type := token.encoding.primitiveType.getD default
  if type = .char ∧ 1 < token.arrayLength then [.bytes bytes]
  else elementsIn type token.encoding.byteOrder bytes token.arrayLength 0

/-- The values that stand at a place of a buffer for a token.  Where no byte is read for the token,
nothing has to stand there. -/
def ReadAt (buffer : Buffer) (token : Token) (place : Nat) (values : List Value) : Prop :=
  ∃ bytes : List UInt8, bytes.length = token.extent ∧
    (0 < token.extent → BytesAt buffer place bytes) ∧ values = token.valuesIn bytes

/-- Values lie in a block that is long enough for their place, and in no other. -/
theorem ReadAt.in_block_iff {buffer : Buffer} {token : Token} {start place : Nat}
    {values : List Value} (read : ReadAt buffer token (start + place) values) (length : Nat) :
    ReadAt (buffer.extract start (start + length)) token place values ↔
      (0 < token.extent → place + token.extent ≤ length) := by
  constructor
  · rintro ⟨bytes, sameLength, stands, _⟩ positive
    have inside := (stands positive).length_le
    rw [Array.size_extract] at inside
    omega
  · intro fits
    obtain ⟨bytes, sameLength, stands, same⟩ := read
    refine ⟨bytes, sameLength, fun positive => ?_, same⟩
    rw [(stands positive).in_block_iff, sameLength]
    exact fits positive

variable {source : Source}

theorem readElements_inside (small : source.buffer.size ≤ lastPosition) {type : PrimitiveType}
    {order : ByteOrder} {count : Nat} : ∀ {earlier values : List Value} {position : Nat},
      readElements source type order earlier position count = .ok values → 0 < count →
      position + count * type.size ≤ source.buffer.size := by
  induction count with
  | zero => exact fun _ positive => absurd positive (Nat.lt_irrefl 0)
  | succ count ih =>
      intro earlier values position read _
      rw [readElements] at read
      split at read
      · cases read
      · rename_i value isValue
        have first := readPrimitive_inside isValue
        rw [Nat.succ_mul]
        by_cases more : 0 < count
        · have others := ih read more
          rw [advance_of_le (Nat.le_trans first small)] at others
          omega
        · have none : count = 0 := by omega
          subst none
          omega

/-- A place that something can be read from is not beyond the last position. -/
theorem advance_of_inside {buffer : Buffer} (small : buffer.size ≤ lastPosition)
    {start distance length : Nat} (positive : 0 < length)
    (inside : advance start distance + length ≤ buffer.size) :
    advance start distance = start + distance := by
  rw [advance] at inside ⊢
  omega

section

variable {token : Token} {type : PrimitiveType} {start distance : Nat} {values : List Value}

theorem Token.width_of_type (isType : token.encoding.primitiveType = some type) :
    token.width = type.size := by
  rw [Token.width, isType]
  rfl

/-- Characters that are read stand at the place that they are read from. -/
theorem slice_readAt (small : source.buffer.size ≤ lastPosition) {content : List UInt8}
    (isType : token.encoding.primitiveType = some type)
    (isText : type = .char ∧ 1 < token.arrayLength)
    (read : slice source.buffer (advance start distance) token.arrayLength = .ok content) :
    ReadAt source.buffer token (start + distance) [.bytes content] := by
  have inside := (slice_inside read).1
  rw [advance_of_inside small (by omega) inside] at read inside
  obtain ⟨bytes, sameLength, stands⟩ := exists_bytesAt inside
  have isContent := stands.slice_self
  rw [sameLength, read] at isContent
  cases isContent
  have size : type.size = 1 := by
    rw [isText.1]
    rfl
  refine ⟨content, ?_, fun _ => stands, ?_⟩
  · rw [Token.extent, Token.width_of_type isType, size, Nat.mul_one, sameLength]
  · rw [Token.valuesIn, isType, Option.getD_some, if_pos isText]

/-- Elements that are read stand at the place that they are read from. -/
theorem readElements_readAt (small : source.buffer.size ≤ lastPosition)
    (isType : token.encoding.primitiveType = some type)
    (noText : ¬(type = .char ∧ 1 < token.arrayLength))
    (read : readElements source type token.encoding.byteOrder [] (advance start distance)
      token.arrayLength = .ok values) :
    ReadAt source.buffer token (start + distance) values := by
  have isWidth := Token.width_of_type isType
  by_cases some : 0 < token.arrayLength
  · have inside := readElements_inside small read some
    rw [advance_of_inside small (Nat.mul_pos some type.size_pos) inside] at read inside
    obtain ⟨bytes, sameLength, stands⟩ := exists_bytesAt inside
    have fits : 0 + token.arrayLength * type.size ≤ bytes.length := by omega
    have elements : readElements source type token.encoding.byteOrder [] (start + distance)
        token.arrayLength =
          .ok (elementsIn type token.encoding.byteOrder bytes token.arrayLength 0) :=
      readElements_bytesAt stands small type token.encoding.byteOrder token.arrayLength [] 0 fits
    rw [read] at elements
    cases elements
    refine ⟨bytes, by rw [Token.extent, isWidth, sameLength], fun _ => stands, ?_⟩
    rw [Token.valuesIn, isType, Option.getD_some, if_neg noText]
  · -- Nothing is read for no element, wherever that is.
    have none : token.arrayLength = 0 := by omega
    rw [none, readElements] at read
    cases read
    have nothing : token.extent = 0 := by rw [Token.extent, none, Nat.zero_mul]
    refine ⟨[], nothing.symm, fun positive => by omega, ?_⟩
    rw [Token.valuesIn, isType, Option.getD_some, if_neg noText, none]
    rfl

/-- A position that the distances behind a start are counted from, some distance behind it. -/
def Base (start distance base : Nat) : Prop :=
  ∀ further, advance base further = advance start (distance + further)

theorem Base.here (start : Nat) : Base start 0 start := fun further => by rw [Nat.zero_add]

theorem Base.advance {base : Nat} (isBase : Base start distance base) (further : Nat) :
    Base start (distance + further) (advance base further) := fun beyond => by
  rw [advance_advance, isBase, Nat.add_assoc]

/-- A value that is present is read from the bytes at its place, and these lie in the buffer. -/
theorem readValue_readAt (small : source.buffer.size ≤ lastPosition) {field : Token} {base : Nat}
    (isBase : Base start distance base)
    (read : readValue source field token base = .ok (.present values)) :
    ReadAt source.buffer token (start + (distance + token.offset.toNatClampNeg)) values := by
  rw [readValue] at read
  cases isConstant : constantOf? field token with
  | some value =>
      rw [isConstant] at read
      cases read
  | none =>
      cases isType : token.encoding.primitiveType with
      | none => simp [isConstant, isType] at read
      | some type =>
          simp only [isConstant, isType] at read
          split at read
          · cases read
          obtain ⟨position, isPosition, read⟩ := ok_of_bind read
          rw [positionOf_eq_ok isPosition, isBase] at read
          split at read
          · rename_i isText
            obtain ⟨content, isContent, read⟩ := ok_of_bind read
            cases read
            exact slice_readAt small isType isText isContent
          · rename_i noText
            obtain ⟨found, isFound, read⟩ := ok_of_bind read
            cases read
            exact readElements_readAt small isType noText isFound

end

/-! ### The places of the values in a type -/

mutual

/-- The tokens of the values in a type, each with its distance from the start of the block, the type
starting at a distance from there. -/
def TypeTree.places (distance : Nat) : TypeTree → List (Token × Nat)
  | .encoding leaf => [(leaf.1, distance + leaf.1.offset.toNatClampNeg)]
  | .enumeration tree => [(tree.opening.1, distance + tree.opening.1.offset.toNatClampNeg)]
  | .set tree => [(tree.opening.1, distance + tree.opening.1.offset.toNatClampNeg)]
  | .composite opening members _ =>
    TypeTree.memberPlaces (distance + opening.1.offset.toNatClampNeg) members

/-- The same for the members of a composite. -/
def TypeTree.memberPlaces (distance : Nat) : List TypeTree → List (Token × Nat)
  | [] => []
  | member :: members => member.places distance ++ TypeTree.memberPlaces distance members

end

/-- The tokens of the values in a field, each with its distance from the start of the block. -/
def FieldTree.places (field : FieldTree) : List (Token × Nat) :=
  field.type.places 0

/-- The token and the value that an event is about. -/
def Event.told? : Event → Option (Token × FieldValue)
  | .encoding _ token value => some (token, value)
  | .enumeration _ tokens value _ | .bitSet _ tokens value => tokens.head?.map (·, value)
  | _ => none

variable {field token : Token} {values : List Value} {event : Event} {start : Nat}

mutual

/-- A value that is told as present was read at its place. -/
theorem TypeTree.readAt_of_told (small : source.buffer.size ≤ lastPosition)
    (told : event.told? = some (token, .present values)) :
    ∀ (tree : TypeTree) {distance base : Nat}, Base start distance base →
      event ∈ (tree.walk source field base).events →
      ∃ place, (token, place) ∈ tree.places distance ∧
        ReadAt source.buffer token (start + place) values
  | .encoding leaf, _, _, isBase, member => by
      rw [TypeTree.walk, Walk.mem_events_check_bind] at member
      obtain ⟨value, isRead, member⟩ := member
      cases Walk.mem_events_emit.mp member
      cases told
      exact ⟨_, List.mem_singleton.mpr rfl, readValue_readAt small isBase isRead⟩
  | .enumeration tree, _, _, isBase, member => by
      rw [TypeTree.walk, EnumTree.walk, Walk.mem_events_check_bind] at member
      obtain ⟨value, isRead, member⟩ := member
      cases Walk.mem_events_emit.mp member
      cases told
      -- The value of a fixed field is never present.
      split at isRead
      · rw [constantEnumValue] at isRead
        split at isRead <;> cases isRead
      · exact ⟨_, List.mem_singleton.mpr rfl, readValue_readAt small isBase isRead⟩
  | .set tree, _, _, isBase, member => by
      rw [TypeTree.walk, SetTree.walk, Walk.mem_events_check_bind] at member
      obtain ⟨value, isRead, member⟩ := member
      cases Walk.mem_events_emit.mp member
      cases told
      exact ⟨_, List.mem_singleton.mpr rfl, readValue_readAt small isBase isRead⟩
  | .composite opening members closing, _, _, isBase, member => by
      rw [TypeTree.walk, Walk.mem_events_check_bind] at member
      obtain ⟨inner, isInner, member⟩ := member
      rw [positionOf_eq_ok isInner] at member
      rcases Walk.mem_events_bracket member with rfl | inside | rfl
      · cases told
      · exact TypeTree.readAt_of_told_members small told members (isBase.advance _) inside
      · cases told

theorem TypeTree.readAt_of_told_members (small : source.buffer.size ≤ lastPosition)
    (told : event.told? = some (token, .present values)) :
    ∀ (members : List TypeTree) {distance base : Nat}, Base start distance base →
      event ∈ (TypeTree.walkMembers source field base members).events →
      ∃ place, (token, place) ∈ TypeTree.memberPlaces distance members ∧
        ReadAt source.buffer token (start + place) values
  | [], _, _, _, member => absurd member List.not_mem_nil
  | first :: others, _, _, isBase, member => by
      rw [TypeTree.walkMembers, Walk.mem_events_bind] at member
      rcases member with here | ⟨_, _, later⟩
      · obtain ⟨place, isPlace, read⟩ := first.readAt_of_told small told isBase here
        exact ⟨place, List.mem_append_left _ isPlace, read⟩
      · obtain ⟨place, isPlace, read⟩ :=
          TypeTree.readAt_of_told_members small told others isBase later
        exact ⟨place, List.mem_append_right _ isPlace, read⟩

end

/-! ### The blocks that are found -/

/-- Whether a block that starts and is as long as given is the block of an entry among findings. -/
def OfEntry (findings : List (Finding source)) (start length : Nat) : Prop :=
  ∃ found index, .entry found index start ∈ findings ∧ length = found.size.blockLength

theorem OfEntry.mono {findings more : List (Finding source)} {start length : Nat}
    (ofEntry : OfEntry findings start length) (all : findings ⊆ more) :
    OfEntry more start length := by
  obtain ⟨found, index, member, isLength⟩ := ofEntry
  exact ⟨found, index, all member, isLength⟩

variable {length : Nat} {fields : List FieldTree}

theorem FoundGroup.ofEntry_of_block (found : FoundGroup source) {walk : Nat → Walk Nat}
    {inside : Nat → List (Finding source)}
    (each : ∀ position, .block start length fields ∈ inside position →
      start = position ∧ length = found.size.blockLength ∨
        OfEntry (inside position) start length) (count : Nat) :
    ∀ index position,
      .block start length fields ∈ found.entries walk inside index count position →
      OfEntry (found.entries walk inside index count position) start length := by
  induction count with
  | zero => exact fun _ _ member => absurd member List.not_mem_nil
  | succ count ih =>
      intro index position member
      rw [FoundGroup.entries] at member ⊢
      rcases List.mem_cons.mp member with isEntry | behind
      · cases isEntry
      rcases List.mem_append.mp behind with here | later
      · rcases each position here with ⟨rfl, isLength⟩ | ofEntry
        · exact ⟨found, index, List.mem_cons_self, isLength⟩
        · exact ofEntry.mono fun _ isInside =>
            List.mem_cons_of_mem _ (List.mem_append_left _ isInside)
      · obtain ⟨next, ends, among⟩ := Walk.mem_behind.mp later
        refine (ih (index + 1) next among).mono fun _ isLater => List.mem_cons_of_mem _ ?_
        exact List.mem_append_right _ (Walk.mem_behind.mpr ⟨next, ends, isLater⟩)

mutual

theorem GroupTree.ofEntry_of_block : ∀ (tree : GroupTree) {position : Nat},
    .block start length fields ∈ tree.findings source position →
    OfEntry (tree.findings source position) start length
  | .group opening dimensions body closing, position, member => by
      cases read : readGroupSize source opening dimensions.dimensions position with
      | error problem =>
          rw [GroupTree.findings_of_error read] at member
          exact absurd member List.not_mem_nil
      | ok size =>
          let found : FoundGroup source := ⟨opening, dimensions, position, size, read⟩
          rw [GroupTree.findings_of_ok read] at member ⊢
          rcases List.mem_cons.mp member with isGroup | inside
          · cases isGroup
          · have ofEntry := found.ofEntry_of_block
              (fun start => body.root_or_ofEntry_of_block) size.count 0 size.start inside
            exact ofEntry.mono fun _ isInside => List.mem_cons_of_mem _ isInside

theorem GroupTree.ofEntry_of_block_list : ∀ (groups : List GroupTree) {position : Nat},
    .block start length fields ∈ GroupTree.listFindings source position groups →
    OfEntry (GroupTree.listFindings source position groups) start length
  | [], _, member => absurd member List.not_mem_nil
  | group :: groups, position, member => by
      rw [GroupTree.listFindings] at member ⊢
      rcases List.mem_append.mp member with here | later
      · exact (group.ofEntry_of_block here).mono fun _ isHere => List.mem_append_left _ isHere
      · obtain ⟨next, ends, among⟩ := Walk.mem_behind.mp later
        exact (GroupTree.ofEntry_of_block_list groups among).mono fun _ isLater =>
          List.mem_append_right _ (Walk.mem_behind.mpr ⟨next, ends, isLater⟩)

/-- A block is the first one, or the block of an entry. -/
theorem BlockTree.root_or_ofEntry_of_block : ∀ (tree : BlockTree) {position blockLength : Nat},
    .block start length fields ∈ tree.findings source position blockLength →
    start = position ∧ length = blockLength ∨
      OfEntry (tree.findings source position blockLength) start length
  | .block first groups varData, position, blockLength, member => by
      rw [BlockTree.findings] at member ⊢
      rcases List.mem_cons.mp member with isFirst | behind
      · cases isFirst
        exact .inl ⟨rfl, rfl⟩
      · obtain ⟨result, ends, among⟩ := Walk.mem_behind.mp behind
        exact .inr ((GroupTree.ofEntry_of_block_list groups among).mono fun _ isLater =>
          List.mem_cons_of_mem _ (Walk.mem_behind.mpr ⟨result, ends, isLater⟩))

end

/-! ### The places of what is told -/

/-- What a reader of a stored message is told about fields, groups and entries is what it is told
about its findings; the blocks among these are the root block and the blocks of the entries.  A
value that is told as present of a field was read at a place of that field, counted from the start
of the block.  It lies in the block if the block is long enough for the place; if not, it is told
all the same.  The message may be read to its end or not. -/
theorem decode_places {draft extended : SchemaDraft} {messageId : Int64} {message : MessageTree}
    (accepted : draft.addMessage messageId message.tokens = .ok extended)
    (countable : message.tokens.length < spanLimit) :
    ∃ stored, extended.messages.get? messageId = some stored ∧
      ∀ (buffer : Buffer) (offset : Nat) (actingVersion : Int32) (blockLength : Nat),
        buffer.size ≤ lastPosition →
        let source : Source := ⟨buffer, actingVersion⟩
        let findings := message.reduced.measured.findings source offset blockLength
        (decode buffer offset actingVersion blockLength stored).events.filter Event.isOfFinding =
            findings.flatMap Finding.events ∧
          ∀ start length fields, .block start length fields ∈ findings →
            (start = offset ∧ length = blockLength ∨ OfEntry findings start length) ∧
            ∀ event ∈ (FieldTree.walkList source start fields).events, ∀ token values,
              event.told? = some (token, .present values) →
              ∃ field ∈ fields, event ∈ (field.walk source start).events ∧
                ∃ place, (token, place) ∈ field.places ∧
                  ReadAt buffer token (start + place) values ∧
                  (ReadAt (buffer.extract start (start + length)) token place values ↔
                    (0 < token.extent → place + token.extent ≤ length)) := by
  obtain ⟨_, isStored⟩ := SchemaDraft.addMessage_tokens accepted
  refine ⟨_, isStored, fun buffer offset actingVersion blockLength small => ?_⟩
  refine ⟨SchemaDraft.told_findings accepted countable _ _ _ _, fun start length fields found => ?_⟩
  refine ⟨BlockTree.root_or_ofEntry_of_block _ found, fun event member token values told => ?_⟩
  obtain ⟨field, isField, ofField⟩ := FieldTree.mem_events_list member
  have smallSource : (Source.mk buffer actingVersion).buffer.size ≤ lastPosition := small
  obtain ⟨place, isPlace, read⟩ := field.type.readAt_of_told smallSource told (.here start) ofField
  exact ⟨field, isField, ofField, place, isPlace, read, read.in_block_iff length⟩

/-- An order with a root block of five bytes, which is as much as its price takes. -/
theorem decode_places_order :
    let buffer : Buffer := #[7, 0, 0, 0, 1, 0, 0, 0, 0]
    let source : Source := ⟨buffer, 0⟩
    let findings := orderMessage.reduced.measured.findings source 0 5
    ∃ extended, emptyDraft.addMessage 1 orderMessage.tokens = .ok extended ∧
      orderMessage.tokens.length < spanLimit ∧ buffer.size ≤ lastPosition ∧
      ∃ stored, extended.messages.get? 1 = some stored ∧
        (decode buffer 0 0 5 stored).events.filter Event.isOfFinding =
            findings.flatMap Finding.events ∧
          ∀ start length fields, .block start length fields ∈ findings →
            (start = 0 ∧ length = 5 ∨ OfEntry findings start length) ∧
            ∀ event ∈ (FieldTree.walkList source start fields).events, ∀ token values,
              event.told? = some (token, .present values) →
              ∃ field ∈ fields, event ∈ (field.walk source start).events ∧
                ∃ place, (token, place) ∈ field.places ∧
                  ReadAt buffer token (start + place) values ∧
                  (ReadAt (buffer.extract start (start + length)) token place values ↔
                    (0 < token.extent → place + token.extent ≤ length)) := by
  intro buffer source findings
  obtain ⟨extended, accepted⟩ := orderMessage_accepted
  have countable : orderMessage.tokens.length < spanLimit := by decide
  have small : buffer.size ≤ lastPosition := by decide
  obtain ⟨stored, isStored, all⟩ := decode_places accepted countable
  exact ⟨extended, accepted, countable, small, stored, isStored, all buffer 0 0 5 small⟩

/-- The root block of an order may be empty.  Its price is told as present all the same: it is read
from the size of the group behind the block, and changes with the number of legs. -/
theorem decode_outsideBlock :
    ∃ tokens, storedAlone orderMessage.tokens = some tokens ∧
      ∀ legs ∈ [2, 3], ∃ field mantissa : Token,
        let walk := decode #[0, 0, legs, 0, 1] 0 0 0 tokens
        walk.outcome.toOption = some 4 ∧
          .encoding field mantissa (.present [.uint (legs.toUInt64 * 65536)]) ∈ walk.events := by
  refine ⟨orderMessage.reduced.measured.tokens, by decide +kernel, fun legs isLegs => ?_⟩
  refine ⟨{ signal := .beginField, name := "price", storedSpan := 9 },
    FrontEnd.encoding "mantissa" .uint32 0, ?_⟩
  revert legs
  decide +kernel

end WireSchema
