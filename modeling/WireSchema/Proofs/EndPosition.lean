/-
Module: WireSchema.Proofs.EndPosition
Purpose: A reader never moves back, and whatever it has read lies inside the buffer.  It moves
  without reading in two places only: behind the root block, by the length that the header gave, and
  behind the dimensions of a group, by the length that the schema gives them.  So a message never
  ends before its root block does, and ends with it if the version of the sender leaves nothing to
  be read behind it (`decode_end`).
Main exports: Reaches, DimensionsCovered, Bounded, decode_end, decode_pastBuffer
-/
import WireSchema.Proofs.OlderDecoding
import WireSchema.Proofs.WireReading

namespace WireSchema

/-!
Where the dimensions of every group are no longer than the two numbers in them, the end is inside
the buffer as soon as one group or variable data is read behind the root block.  The end of the root
block itself may lie behind the buffer, as nobody looks there.
-/

/-! ### Moving forward -/

theorem advance_le_lastPosition (position distance : Nat) :
    advance position distance ≤ lastPosition :=
  Nat.min_le_right _ _

theorem le_advance {position : Nat} (small : position ≤ lastPosition) (distance : Nat) :
    position ≤ advance position distance :=
  Nat.le_min.mpr ⟨Nat.le_add_right _ _, small⟩

theorem slice_inside {buffer : Buffer} {index length : Nat} {content : List UInt8}
    (read : slice buffer index length = .ok content) :
    index + length ≤ buffer.size ∧ content.length = length := by
  rw [slice] at read
  split at read
  · rename_i inside
    cases read
    refine ⟨inside, ?_⟩
    rw [Array.length_toList, Array.size_extract]
    omega
  · cases read

theorem readPrimitive_inside {buffer : Buffer} {index : Nat} {type : PrimitiveType}
    {order : ByteOrder} {value : Value} (read : readPrimitive buffer index type order = .ok value) :
    index + type.size ≤ buffer.size := by
  obtain ⟨bytes, isBytes, _⟩ := ok_of_bind read
  exact (slice_inside isBytes).1

/-- The number of bytes that a scalar of the type of a token takes. -/
def Token.width (token : Token) : Nat :=
  token.encoding.primitiveType.elim 0 PrimitiveType.size

/-- An integer that was read lies inside the buffer. -/
theorem readUnsigned_inside {buffer : Buffer} {index : Nat} {token : Token} {number : UInt64}
    (read : readUnsigned buffer index token = .ok number) :
    0 < token.width ∧ index + token.width ≤ buffer.size := by
  rw [readUnsigned] at read
  rw [Token.width]
  cases isType : token.encoding.primitiveType with
  | none => simp [isType] at read
  | some type =>
      simp only [isType] at read
      split at read
      · cases read
      · obtain ⟨value, isValue, _⟩ := ok_of_bind read
        exact ⟨type.size_pos, readPrimitive_inside isValue⟩

theorem positionOf_eq_ok {base position : Nat} {token : Token}
    (placed : positionOf base token = .ok position) :
    position = advance base token.offset.toNatClampNeg := by
  rw [positionOf, fixedOffset] at placed
  split at placed
  · cases placed
  · cases placed
    rfl

/-! ### The sizes of groups -/

/-- Where a scalar ends, counted from where its offset is counted from. -/
def Token.reach (token : Token) : Nat :=
  token.offset.toNatClampNeg + token.width

/-- The dimensions of a group are no longer than the two numbers in them. -/
def Dimensions.Covered (dimensions : Dimensions) : Prop :=
  dimensions.composite.encodedLength.toNatClampNeg ≤
    max dimensions.blockLength.reach dimensions.numInGroup.reach

instance (dimensions : Dimensions) : Decidable dimensions.Covered :=
  inferInstanceAs (Decidable (_ ≤ _))

/-- A number that was read at its place ends inside the buffer. -/
theorem reach_inside {buffer : Buffer} (small : buffer.size ≤ lastPosition) {base position : Nat}
    {token : Token} {number : UInt64} (placed : positionOf base token = .ok position)
    (read : readUnsigned buffer position token = .ok number) :
    base + token.reach ≤ buffer.size := by
  obtain ⟨wide, inside⟩ := readUnsigned_inside read
  rw [positionOf_eq_ok placed, advance] at inside
  rw [Token.reach]
  omega

theorem not_newer_iff {token : Token} {version : Int32} :
    token.isNewer version = false ↔ token.version ≤ version := by
  rw [Token.isNewer, decide_eq_false_iff_not, Int32.not_lt]

variable {source : Source}

/-- A number that is read at the place of a token within something that starts at a position. -/
def ReadsCount (source : Source) (position : Nat) (token : Token) (number : Nat) : Prop :=
  ∃ place word, positionOf position token = .ok place ∧
    readUnsigned source.buffer place token = .ok word ∧ number = word.toNat

/-- What is known of the size of a group that the sender knew. -/
structure SizeRead (source : Source) (dimensions : Dimensions) (position : Nat) (size : GroupSize) :
    Prop where
  blockLength : ReadsCount source position dimensions.blockLength size.blockLength
  count : ReadsCount source position dimensions.numInGroup size.count
  start : size.start = advance position dimensions.composite.encodedLength.toNatClampNeg
  room : min (size.count * size.blockLength) lastPosition ≤ source.buffer.size - size.start

theorem readGroupSize_known {group : Token} {dimensions : Dimensions} {position : Nat}
    {size : GroupSize} (known : group.isNewer source.actingVersion = false)
    (read : readGroupSize source group dimensions position = .ok size) :
    SizeRead source dimensions position size := by
  rw [readGroupSize, if_pos (not_newer_iff.mp known)] at read
  obtain ⟨blockLengthAt, isBlockLengthAt, read⟩ := ok_of_bind read
  obtain ⟨blockLength, isBlockLength, read⟩ := ok_of_bind read
  obtain ⟨numInGroupAt, isNumInGroupAt, read⟩ := ok_of_bind read
  obtain ⟨numInGroup, isNumInGroup, read⟩ := ok_of_bind read
  obtain ⟨length, isLength, read⟩ := ok_of_bind read
  have sameLength : length = dimensions.composite.encodedLength.toNatClampNeg := by
    rw [fixedLength] at isLength
    split at isLength
    · cases isLength
    · cases isLength
      rfl
  simp only [bind, Except.bind] at read
  split at read
  · cases read
  · rename_i room
    cases read
    exact ⟨⟨_, _, isBlockLengthAt, isBlockLength, rfl⟩, ⟨_, _, isNumInGroupAt, isNumInGroup, rfl⟩,
      congrArg (advance position) sameLength, Nat.not_lt.mp room⟩

theorem ReadsCount.inside (small : source.buffer.size ≤ lastPosition) {position : Nat}
    {token : Token} {number : Nat} (reads : ReadsCount source position token number) :
    position + token.reach ≤ source.buffer.size :=
  have ⟨_, _, placed, read, _⟩ := reads
  reach_inside small placed read

/-- The first entry of a group that the sender knew starts behind the start of the group. -/
theorem readGroupSize_forward {group : Token} {dimensions : Dimensions} {position : Nat}
    {size : GroupSize} (known : group.isNewer source.actingVersion = false)
    (read : readGroupSize source group dimensions position = .ok size) :
    min position lastPosition ≤ size.start := by
  rw [(readGroupSize_known known read).start, advance]
  omega

/-- The first entry of a group that the sender knew starts inside the buffer, and its blocks have
room behind that. -/
theorem readGroupSize_inside (small : source.buffer.size ≤ lastPosition) {group : Token}
    {dimensions : Dimensions} {position : Nat} {size : GroupSize}
    (known : group.isNewer source.actingVersion = false) (covered : dimensions.Covered)
    (read : readGroupSize source group dimensions position = .ok size) :
    size.start ≤ source.buffer.size ∧
      advance size.start (size.count * size.blockLength) ≤ source.buffer.size := by
  obtain ⟨blockLength, count, isStart, room⟩ := readGroupSize_known known read
  have first := blockLength.inside small
  have second := count.inside small
  rw [Dimensions.Covered] at covered
  have inside : size.start ≤ source.buffer.size := by
    rw [isStart, advance]
    omega
  refine ⟨inside, ?_⟩
  rw [advance]
  omega

/-! ### How far a walk gets -/

/-- The tokens that open the constructs of a section. -/
def sectionHeads (signal : Signal) (limit : Nat) (tokens : List Token) : List Token :=
  match limit, tokens with
  | 0, _ => []
  | _, [] => []
  | limit + 1, token :: rest =>
    if token.signal = signal then
      token :: sectionHeads signal (limit + 1 - token.span) ((token :: rest).drop token.span)
    else []
termination_by tokens.length
decreasing_by
  have positive := token.span_pos
  simp only [List.length_drop, List.length_cons]
  omega

theorem sectionHeads_zero (signal : Signal) (tokens : List Token) :
    sectionHeads signal 0 tokens = [] := by
  rw [sectionHeads.eq_def]

theorem sectionHeads_nil (signal : Signal) (limit : Nat) : sectionHeads signal limit [] = [] := by
  rw [sectionHeads.eq_def]
  cases limit <;> rfl

theorem sectionHeads_cons {signal : Signal} {token : Token} (opens : token.signal = signal)
    (limit : Nat) (rest : List Token) :
    sectionHeads signal (limit + 1) (token :: rest) =
      token :: sectionHeads signal (limit + 1 - token.span) ((token :: rest).drop token.span) := by
  rw [sectionHeads.eq_def]
  simp only [if_pos opens]

theorem sectionHeads_other {signal : Signal} {token : Token} (other : token.signal ≠ signal)
    (limit : Nat) (rest : List Token) : sectionHeads signal limit (token :: rest) = [] := by
  rw [sectionHeads.eq_def]
  cases limit with
  | zero => rfl
  | succ limit => exact if_neg other

/-- The tokens that open the groups and the variable data of a block. -/
def blockHeads (limit : Nat) (tokens : List Token) : List Token :=
  let groups := passSection .beginField limit tokens
  let varData := passSection .beginGroup groups.1 groups.2
  sectionHeads .beginGroup groups.1 groups.2 ++ sectionHeads .beginVarData varData.1 varData.2

/-- The sender knew one of some constructs, or none of them. -/
theorem known_or_newer (version : Int32) (heads : List Token) :
    (∃ head ∈ heads, head.isNewer version = false) ∨
      ∀ head ∈ heads, head.isNewer version = true := by
  by_cases known : ∃ head ∈ heads, head.isNewer version = false
  · exact .inl known
  · exact .inr (by simpa using known)

/-- Reading some groups and variable data leads from one position to another: not back, but for
positions behind the last one, and nowhere if the sender knew none of them.  Under a condition it
leads into the buffer if the sender knew one. -/
structure Reaches (source : Source) (given : Prop) (heads : List Token) (position next : Nat) :
    Prop where
  forward : min position lastPosition ≤ next
  still : (∀ head ∈ heads, head.isNewer source.actingVersion = true) → next = position
  inside : given → (∃ head ∈ heads, head.isNewer source.actingVersion = false) →
    next ≤ source.buffer.size

namespace Reaches

variable {given : Prop} {heads otherHeads : List Token} {position next last : Nat}

theorem nothing : Reaches source given [] position position :=
  ⟨Nat.min_le_left _ _, fun _ => rfl, fun _ ⟨_, member, _⟩ => absurd member List.not_mem_nil⟩

theorem trans (one : Reaches source given heads position next)
    (other : Reaches source given otherHeads next last) :
    Reaches source given (heads ++ otherHeads) position last := by
  refine ⟨?_, fun newer => ?_, fun isGiven ⟨head, member, known⟩ => ?_⟩
  · have first := one.forward
    have second := other.forward
    omega
  · rw [List.forall_mem_append] at newer
    rw [other.still newer.2, one.still newer.1]
  · rcases known_or_newer source.actingVersion otherHeads with laterKnown | allNewer
    · exact other.inside isGiven laterKnown
    · rw [other.still allNewer]
      rcases List.mem_append.mp member with first | second
      · exact one.inside isGiven ⟨head, first, known⟩
      · exact absurd known (by rw [allNewer head second]; decide)

theorem imp {weaker : Prop} (reaches : Reaches source weaker heads position next)
    (isWeaker : given → weaker) : Reaches source given heads position next :=
  ⟨reaches.forward, reaches.still, fun isGiven => reaches.inside (isWeaker isGiven)⟩

/-- A construct that the sender did not know. -/
theorem newer {head : Token} (newer : head.isNewer source.actingVersion = true) :
    Reaches source given [head] position position := by
  refine ⟨Nat.min_le_left _ _, fun _ => rfl, fun _ ⟨other, member, known⟩ => ?_⟩
  rw [List.mem_singleton.mp member, newer] at known
  cases known

/-- A construct that the sender knew. -/
theorem known {head : Token} (known : head.isNewer source.actingVersion = false)
    (forward : min position lastPosition ≤ next) (inside : given → next ≤ source.buffer.size) :
    Reaches source given [head] position next := by
  refine ⟨forward, fun newer => ?_, fun isGiven _ => inside isGiven⟩
  rw [newer head (List.mem_singleton.mpr rfl)] at known
  cases known

/-- Positions stay below the last one. -/
theorem addressable (reaches : Reaches source given heads position next) (isGiven : given)
    (small : source.buffer.size ≤ lastPosition) (before : position ≤ lastPosition) :
    next ≤ lastPosition := by
  rcases known_or_newer source.actingVersion heads with known | allNewer
  · exact Nat.le_trans (reaches.inside isGiven known) small
  · rwa [reaches.still allNewer]

end Reaches

/-! ### Variable data -/

/-- Variable data that was read ends inside the buffer, and that of a newer version is not read. -/
theorem readVarData_reaches (given : Prop) {position : Nat} {field lengthToken dataToken : Token}
    {read : List UInt8 × Nat}
    (isRead : walkVarData.readVarData source position field lengthToken dataToken = .ok read) :
    Reaches source given [field] position read.2 := by
  rw [walkVarData.readVarData] at isRead
  cases isNewer : field.isNewer source.actingVersion with
  | true =>
      rw [if_neg (by rw [← not_newer_iff, isNewer]; decide)] at isRead
      cases isRead
      exact .newer isNewer
  | false =>
      rw [if_pos (not_newer_iff.mp isNewer)] at isRead
      obtain ⟨lengthAt, _, isRead⟩ := ok_of_bind isRead
      obtain ⟨length, _, isRead⟩ := ok_of_bind isRead
      obtain ⟨start, isStart, isRead⟩ := ok_of_bind isRead
      obtain ⟨content, isContent, isRead⟩ := ok_of_bind isRead
      cases isRead
      obtain ⟨inside, sameLength⟩ := slice_inside isContent
      have forward : min position lastPosition ≤ start := by
        rw [positionOf_eq_ok isStart, advance]
        omega
      exact .known isNewer (Nat.le_add_right_of_le forward) fun _ => by simpa only [sameLength]

theorem walkVarData_reaches (given : Prop) {position limit : Nat} {tokens : List Token}
    {next : Nat} (succeeds : (walkVarData source position limit tokens).outcome = .ok next) :
    Reaches source given (sectionHeads .beginVarData limit tokens) position next := by
  fun_induction walkVarData source position limit tokens with
  | case1 =>
      cases succeeds
      rw [sectionHeads_zero]
      exact .nothing
  | case2 =>
      cases succeeds
      rw [sectionHeads_nil]
      exact .nothing
  | case3 position limit field following isField ih =>
      obtain ⟨_, _, succeeds⟩ := Walk.ok_of_bind succeeds
      obtain ⟨_, _, succeeds⟩ := Walk.ok_of_bind succeeds
      obtain ⟨read, isRead, succeeds⟩ := Walk.ok_of_bind succeeds
      obtain ⟨_, _, succeeds⟩ := Walk.ok_of_bind succeeds
      rw [sectionHeads_cons isField]
      exact (readVarData_reaches given (Walk.ok_of_check isRead)).trans (ih read.2 succeeds)
  | case4 position limit field following other =>
      cases succeeds
      rw [sectionHeads_other other]
      exact .nothing

/-! ### Groups and blocks -/

/-- In every group among some tokens the dimensions are no longer than the two numbers in them. -/
def DimensionsCovered : List Token → Prop
  | group :: composite :: blockLength :: numInGroup :: rest =>
    (group.signal = .beginGroup → (Dimensions.mk composite blockLength numInGroup).Covered) ∧
      DimensionsCovered (composite :: blockLength :: numInGroup :: rest)
  | _ => True

/-- Whether the dimensions of every group are. -/
def DimensionsCovered.decide : ∀ tokens : List Token, Decidable (DimensionsCovered tokens)
  | group :: composite :: blockLength :: numInGroup :: rest =>
    have := DimensionsCovered.decide (composite :: blockLength :: numInGroup :: rest)
    inferInstanceAs (Decidable ((group.signal = .beginGroup →
      (Dimensions.mk composite blockLength numInGroup).Covered) ∧
        DimensionsCovered (composite :: blockLength :: numInGroup :: rest)))
  | [] | [_] | [_, _] | [_, _, _] => inferInstanceAs (Decidable True)

instance : DecidablePred DimensionsCovered := DimensionsCovered.decide

theorem DimensionsCovered.tail {token : Token} {rest : List Token}
    (covered : DimensionsCovered (token :: rest)) : DimensionsCovered rest := by
  match rest with
  | [] | [_] | [_, _] => trivial
  | composite :: blockLength :: numInGroup :: behind => exact covered.2

theorem DimensionsCovered.drop {tokens : List Token} (covered : DimensionsCovered tokens) :
    ∀ count, DimensionsCovered (tokens.drop count)
  | 0 => covered
  | count + 1 => by
      cases tokens with
      | nil => trivial
      | cons token rest => exact covered.tail.drop count

theorem DimensionsCovered.of_suffix {tokens part : List Token}
    (covered : DimensionsCovered tokens) (isPart : part <:+ tokens) : DimensionsCovered part := by
  rw [List.suffix_iff_eq_drop.mp isPart]
  exact covered.drop _

/-- The dimensions that are found at the start of a group are among its tokens. -/
theorem DimensionsCovered.dimensions {group : Token} {following range : List Token}
    {dimensions : Dimensions} (covered : DimensionsCovered (group :: following))
    (opens : group.signal = .beginGroup) (isRange : construct group following = .ok range)
    (isDimensions : dimensionsOf group range = .ok dimensions) : dimensions.Covered := by
  have front : range <+: group :: following := by
    rw [construct] at isRange
    split at isRange
    · cases isRange
      exact List.take_prefix _ _
    · cases isRange
  rw [dimensionsOf.eq_def] at isDimensions
  split at isDimensions
  · split at isDimensions
    · cases isDimensions
      obtain ⟨behind, whole⟩ := front
      cases whole
      exact covered.1 opens
    · cases isDimensions
  · cases isDimensions

/-- An entry leads into the buffer, and leaves room for the blocks of the others: something is read
in it, or else all blocks have room. -/
theorem Reaches.entry {given : Prop} {heads : List Token} {start blockLength count next : Nat}
    (one : Reaches source given heads (advance start blockLength) next) (isGiven : given)
    (room : (∀ head ∈ heads, head.isNewer source.actingVersion = true) →
      advance start ((count + 1) * blockLength) ≤ source.buffer.size) :
    next ≤ source.buffer.size ∧
      ((∀ head ∈ heads, head.isNewer source.actingVersion = true) →
        advance next (count * blockLength) ≤ source.buffer.size) := by
  rw [Nat.succ_mul, Nat.add_comm, ← advance_advance] at room
  have roomLeft : (∀ head ∈ heads, head.isNewer source.actingVersion = true) →
      advance next (count * blockLength) ≤ source.buffer.size := fun allNewer =>
    one.still allNewer ▸ room allNewer
  refine ⟨?_, roomLeft⟩
  rcases known_or_newer source.actingVersion heads with known | allNewer
  · exact one.inside isGiven known
  · have addressable : next ≤ lastPosition :=
      one.still allNewer ▸ advance_le_lastPosition start blockLength
    exact Nat.le_trans (le_advance addressable _) (roomLeft allNewer)

section Entries

variable {given : Prop} {heads : List Token} {blockLength : Nat} {step : Nat → Nat → Walk Nat}
  (each : ∀ index start next, (step index start).outcome = .ok next →
    Reaches source given heads (advance start blockLength) next)
include each

/-- Entries one after another, each a block and what follows it, end behind their start. -/
theorem inTurn_forward (count : Nat) : ∀ {index start next : Nat},
    (Walk.inTurn step index count start).outcome = .ok next →
      min start lastPosition ≤ next := by
  induction count with
  | zero =>
      intro index start next succeeds
      cases succeeds
      exact Nat.min_le_left _ _
  | succ count ih =>
      intro index start next succeeds
      obtain ⟨between, isBetween, succeeds⟩ := Walk.ok_of_bind succeeds
      have one := (each index start between isBetween).forward
      have others := ih succeeds
      rw [advance] at one
      omega

/-- They end inside the buffer, as something is read in each of them or else all their blocks have
room. -/
theorem inTurn_inside (isGiven : given) (count : Nat) : ∀ {index start next : Nat},
    start ≤ source.buffer.size →
      ((∀ head ∈ heads, head.isNewer source.actingVersion = true) →
        advance start (count * blockLength) ≤ source.buffer.size) →
      (Walk.inTurn step index count start).outcome = .ok next → next ≤ source.buffer.size := by
  induction count with
  | zero =>
      intro index start next inside _ succeeds
      cases succeeds
      exact inside
  | succ count ih =>
      intro index start next _ room succeeds
      obtain ⟨between, isBetween, succeeds⟩ := Walk.ok_of_bind succeeds
      obtain ⟨betweenInside, roomLeft⟩ := (each index start between isBetween).entry isGiven room
      exact ih betweenInside roomLeft succeeds

end Entries

/-- A group that was read with its entries, none of them if the sender did not know the group. -/
theorem Reaches.group {whole given : Prop} {heads : List Token} {step : Nat → Nat → Walk Nat}
    {group : Token} {dimensions : Dimensions} {position index next : Nat} {size : GroupSize}
    (isSize : readGroupSize source group dimensions position = .ok size)
    (each : ∀ index start next, (step index start).outcome = .ok next →
      Reaches source given heads (advance start size.blockLength) next)
    (covers : whole → source.buffer.size ≤ lastPosition ∧ dimensions.Covered ∧ given)
    (ends : (Walk.inTurn step index size.count size.start).outcome = .ok next) :
    Reaches source whole [group] position next := by
  cases isNewer : group.isNewer source.actingVersion with
  | true =>
      rw [readGroupSize_newer isNewer] at isSize
      cases isSize
      cases ends
      exact .newer isNewer
  | false =>
      have later := inTurn_forward each size.count ends
      have forward := readGroupSize_forward isNewer isSize
      refine .known isNewer (by omega) fun isWhole => ?_
      obtain ⟨small, covered, isGiven⟩ := covers isWhole
      obtain ⟨startInside, room⟩ := readGroupSize_inside small isNewer covered isSize
      exact inTurn_inside each isGiven size.count startInside (fun _ => room) ends

/-- What it takes for positions to stay inside the buffer: it has an end, and the dimensions of
groups are no longer than what is read of them. -/
structure Bounded (source : Source) (tokens : List Token) : Prop where
  small : source.buffer.size ≤ lastPosition
  covered : DimensionsCovered tokens

theorem Bounded.of_suffix {tokens part : List Token} (bounded : Bounded source tokens)
    (isPart : part <:+ tokens) : Bounded source part :=
  ⟨bounded.small, bounded.covered.of_suffix isPart⟩

mutual

/-- Groups that were read. -/
theorem walkGroups_reaches : ∀ {position limit : Nat} {tokens : List Token} {next : Nat},
    (walkGroups source position limit tokens).outcome = .ok next →
      Reaches source (Bounded source tokens) (sectionHeads .beginGroup limit tokens) position next
  | position, 0, tokens, next, succeeds => by
      rw [walkGroups.eq_def] at succeeds
      cases succeeds
      rw [sectionHeads_zero]
      exact .nothing
  | position, limit + 1, [], next, succeeds => by
      rw [walkGroups.eq_def] at succeeds
      cases succeeds
      rw [sectionHeads_nil]
      exact .nothing
  | position, limit + 1, group :: following, next, succeeds => by
      rw [walkGroups.eq_def] at succeeds
      simp only at succeeds
      split at succeeds
      · rename_i opens
        obtain ⟨range, isRange, succeeds⟩ := Walk.ok_of_bind succeeds
        obtain ⟨dimensions, isDimensions, succeeds⟩ := Walk.ok_of_bind succeeds
        obtain ⟨size, isSize, succeeds⟩ := Walk.ok_of_bind succeeds
        obtain ⟨_, _, succeeds⟩ := Walk.ok_of_bind succeeds
        obtain ⟨between, isBetween, succeeds⟩ := Walk.ok_of_bind succeeds
        replace isRange := Walk.ok_of_check isRange
        replace isDimensions := Walk.ok_of_check isDimensions
        replace isSize := Walk.ok_of_check isSize
        rw [Walk.iterate_eq_inTurn] at isBetween
        have inGroup : following.drop dimensions.composite.span <:+ group :: following :=
          (List.drop_suffix _ _).trans (List.suffix_cons group following)
        have one : Reaches source (Bounded source (group :: following)) [group] position
            between :=
          .group isSize (fun index start last isLast => walkBlock_reaches
              (Walk.ok_of_bracket isLast))
            (fun bounded => ⟨bounded.small, bounded.covered.dimensions opens isRange isDimensions,
              bounded.of_suffix inGroup⟩) isBetween
        rw [sectionHeads_cons opens]
        exact one.trans ((walkGroups_reaches succeeds).imp fun bounded =>
          bounded.of_suffix (List.drop_suffix _ _))
      · rename_i other
        cases succeeds
        rw [sectionHeads_other other]
        exact .nothing
termination_by _ _ tokens => 2 * tokens.length
decreasing_by
  all_goals
    have positive := group.span_pos
    simp only [List.length_drop, List.length_cons]
    omega

/-- A block that was read, and what follows it. -/
theorem walkBlock_reaches {start blockLength limit : Nat} {tokens : List Token} {next : Nat}
    (succeeds : (walkBlock source start blockLength limit tokens).outcome = .ok next) :
    Reaches source (Bounded source tokens) (blockHeads limit tokens) (advance start blockLength)
      next := by
  rw [walkBlock.eq_def] at succeeds
  obtain ⟨_, _, succeeds⟩ := Walk.ok_of_bind succeeds
  obtain ⟨position, isPosition, succeeds⟩ := Walk.ok_of_bind succeeds
  have groups := (walkGroups_reaches isPosition).imp fun bounded : Bounded source tokens =>
    bounded.of_suffix (passSection_suffix .beginField limit tokens)
  exact groups.trans (walkVarData_reaches _ succeeds)
termination_by 2 * tokens.length + 1
decreasing_by
  have shorter := passSection_length_le .beginField limit tokens
  omega

end

/-! ### The end of a message -/

/-- The tokens that open the groups and the variable data of a message, but for those in groups. -/
def messageHeads : List Token → List Token
  | [] => []
  | _ :: following => blockHeads (following.length - 1) following

/-- The tokens that open the groups and the variable data of a body, but for those in groups. -/
def BlockTree.heads : BlockTree → List Token
  | .block _ groups varData => groups.map (·.opening.1) ++ varData.map (·.opening.1)

theorem sectionHeads_ends {signal : Signal} {limit : Nat} {tokens : List Token}
    (ends : Ends signal limit tokens) : sectionHeads signal limit tokens = [] := by
  rcases ends with rfl | ⟨first, others, rfl, other⟩
  · exact sectionHeads_zero signal tokens
  · exact sectionHeads_other other limit others

theorem sectionHeads_flatMap {α : Type} {signal : Signal} {tokens : α → List Token}
    {first : α → Token} {trees : List α} (headed : ∀ tree ∈ trees, Headed signal (tokens tree))
    (leads : ∀ tree, (tokens tree).head? = some (first tree)) {later : Nat} {rest : List Token}
    (ends : Ends signal later rest) :
    sectionHeads signal ((trees.flatMap tokens).length + later) (trees.flatMap tokens ++ rest) =
      trees.map first := by
  induction trees with
  | nil => simpa using sectionHeads_ends ends
  | cons tree trees ih =>
      have remaining := ih fun other member => headed other (List.mem_cons_of_mem tree member)
      obtain ⟨token, others, shape, isFirst, span⟩ := headed tree List.mem_cons_self
      have isLead := leads tree
      rw [shape, List.head?_cons, Option.some_inj] at isLead
      obtain ⟨behind, left⟩ := skip_construct span (trees.flatMap tokens ++ rest)
        ((trees.flatMap tokens).length + later)
      rw [List.flatMap_cons, shape, List.length_append, List.append_assoc, Nat.add_assoc,
        List.length_cons, Nat.add_right_comm, List.cons_append, sectionHeads_cons isFirst, behind,
        left, remaining, isLead, List.map_cons]

theorem GroupTree.head?_tokens (tree : GroupTree) :
    tree.tokens.head? = some tree.opening.1 := by
  cases tree with
  | group opening dimensions body closing =>
      rw [GroupTree.tokens, GroupTree.opening, enclose, List.head?_cons]

theorem VarDataTree.head?_tokens (tree : VarDataTree) :
    tree.tokens.head? = some tree.opening.1 :=
  rfl

theorem BlockTree.blockHeads_tokens {body : BlockTree} (spanned : body.Spanned)
    (rest : List Token) : blockHeads body.tokens.length (body.tokens ++ rest) = body.heads := by
  cases body with
  | block fields groups varData =>
      rw [BlockTree.Spanned] at spanned
      obtain ⟨fieldsSpanned, groupsSpanned, varDataSpanned⟩ := spanned
      have fieldHeads := fun field member => FieldTree.headed (fieldsSpanned field member)
      have groupHeads := fun group member =>
        GroupTree.headed (GroupTree.spanned_of_mem groupsSpanned group member)
      have varDataHeads := fun data member => VarDataTree.headed (varDataSpanned data member)
      have varDataEnds {signal : Signal} (different : .beginVarData ≠ signal) :
          Ends signal (varData.flatMap VarDataTree.tokens).length
            (varData.flatMap VarDataTree.tokens ++ rest) :=
        ends_flatMap different varDataHeads (.inl rfl)
      have beforeGroups : Signal.beginVarData ≠ .beginGroup := by decide
      have notField : Signal.beginGroup ≠ .beginField := by decide
      have groupsEnd := ends_flatMap notField groupHeads (varDataEnds (by decide))
      have groupsFound := sectionHeads_flatMap groupHeads GroupTree.head?_tokens
        (varDataEnds beforeGroups)
      have behind : Ends .beginVarData 0 rest := .inl rfl
      have varDataFound := sectionHeads_flatMap varDataHeads VarDataTree.head?_tokens behind
      rw [BlockTree.tokens, BlockTree.heads, GroupTree.listTokens_eq_flatMap]
      simp only [List.length_append, List.append_assoc, blockHeads]
      rw [passSection_flatMap fieldHeads, passSection_ends groupsEnd, groupsFound,
        passSection_flatMap groupHeads, passSection_ends (varDataEnds beforeGroups)]
      exact congrArg _ varDataFound

/-- In the flat form of a tree these are the openings of its groups and its variable data. -/
theorem messageHeads_tokens {tree : MessageTree} (spanned : tree.body.Spanned) :
    messageHeads tree.tokens = tree.body.heads := by
  rw [MessageTree.tokens, enclose, messageHeads, List.length_append, List.length_singleton,
    Nat.add_sub_cancel, tree.body.blockHeads_tokens spanned]

theorem decode_reaches {buffer : Buffer} {tokens : List Token} {offset blockLength : Nat}
    {actingVersion : Int32} {position : Nat}
    (succeeds : (decode buffer offset actingVersion blockLength tokens).outcome = .ok position) :
    let source : Source := ⟨buffer, actingVersion⟩
    Reaches source (Bounded source tokens) (messageHeads tokens) (advance offset blockLength)
      position := by
  rw [decode, walkMessage.eq_def] at succeeds
  cases tokens with
  | nil => cases succeeds
  | cons opening following =>
      simp only at succeeds
      split at succeeds
      · cases succeeds
      · split at succeeds
        · exact (walkBlock_reaches (Walk.ok_of_bracket succeeds)).imp fun bounded =>
            bounded.of_suffix (List.suffix_cons opening following)
        · cases succeeds

/-- A message ends behind its root block, and where that block does if the sender knew none of its
groups and variable data.  If the sender knew one of them, or if the root block ends inside the
buffer, the message ends inside the buffer as well, as long as the dimensions of groups are no
longer than the two numbers in them. -/
theorem decode_end {buffer : Buffer} {tokens : List Token} {offset blockLength : Nat}
    {actingVersion : Int32} {position : Nat}
    (succeeds : (decode buffer offset actingVersion blockLength tokens).outcome = .ok position) :
    advance offset blockLength ≤ position ∧
      (buffer.size ≤ lastPosition → DimensionsCovered tokens →
        offset + blockLength ≤ buffer.size ∨
            (∃ head ∈ messageHeads tokens, head.isNewer actingVersion = false) →
          position ≤ buffer.size) ∧
      ((∀ head ∈ messageHeads tokens, head.isNewer actingVersion = true) →
        position = advance offset blockLength) := by
  have reaches := decode_reaches succeeds
  have behindBlock := reaches.forward
  rw [Nat.min_eq_left (advance_le_lastPosition offset blockLength)] at behindBlock
  refine ⟨behindBlock, fun small covered => ?_, reaches.still⟩
  rintro (blockInside | known)
  · rcases known_or_newer actingVersion (messageHeads tokens) with known | allNewer
    · exact reaches.inside ⟨small, covered⟩ known
    · rw [reaches.still allNewer, advance]
      omega
  · exact reaches.inside ⟨small, covered⟩ known

/-- An order of five bytes, one leg without a block of its own, and a note to it. -/
theorem decode_end_order :
    ∃ tokens, storedAlone orderMessage.tokens = some tokens ∧
      let buffer : Buffer := #[1, 0, 0, 0, 0, 0, 0, 1, 0, 2, 0, 72, 105]
      buffer.size ≤ lastPosition ∧ DimensionsCovered tokens ∧
        (decode buffer 0 1 5 tokens).outcome = .ok 13 ∧
        advance 0 5 ≤ 13 ∧
          (buffer.size ≤ lastPosition → DimensionsCovered tokens →
            0 + 5 ≤ buffer.size ∨ (∃ head ∈ messageHeads tokens, head.isNewer 1 = false) →
              13 ≤ buffer.size) ∧
          ((∀ head ∈ messageHeads tokens, head.isNewer 1 = true) → 13 = advance 0 5) := by
  obtain ⟨tokens, isStored⟩ := Option.isSome_iff_exists.mp
    (show (storedAlone orderMessage.tokens).isSome = true by decide +kernel)
  have small : (#[1, 0, 0, 0, 0, 0, 0, 1, 0, 2, 0, 72, 105] : Buffer).size ≤ lastPosition := by
    decide
  have covered : DimensionsCovered tokens := by
    have all : ∀ tokens ∈ storedAlone orderMessage.tokens, DimensionsCovered tokens := by
      decide +kernel
    exact all tokens isStored
  have succeeds : (decode #[1, 0, 0, 0, 0, 0, 0, 1, 0, 2, 0, 72, 105] 0 1 5 tokens).outcome =
      .ok 13 := by
    have all : ∀ tokens ∈ storedAlone orderMessage.tokens,
        (decode #[1, 0, 0, 0, 0, 0, 0, 1, 0, 2, 0, 72, 105] 0 1 5 tokens).outcome.toOption =
          some 13 := by decide +kernel
    exact ok_of_toOption (all tokens isStored)
  exact ⟨tokens, isStored, small, covered, succeeds, decode_end succeeds⟩

/-- A message of some groups. -/
def groupsMessage (groups : List GroupTree) : MessageTree :=
  ⟨⟨{ signal := .beginMessage, name := "Fills" }, rfl⟩, .block [] groups [],
    ⟨{ signal := .endMessage, name := "Fills" }, rfl⟩⟩

/-- A group of entries without content, its dimensions of a given length. -/
def bareGroup (dimensionsLength : Int32) : GroupTree :=
  let opening : Token :=
    { signal := .beginComposite, name := "groupSizeEncoding", encodedLength := dimensionsLength }
  let dimensions :=
    { twoNumbers "groupSizeEncoding" "blockLength" "numInGroup" with opening := ⟨opening, rfl⟩ }
  .group ⟨{ signal := .beginGroup, name := "fills" }, rfl⟩ dimensions (.block [] [] [])
    ⟨{ signal := .endGroup, name := "fills" }, rfl⟩

/-- Nothing is read behind the root block of a message that is a root block only, so it ends behind
the buffer if its length says so, or at the last position if there is none for that length.  Nor is
anything read behind the two numbers in longer dimensions, so they too may end a message there. -/
theorem decode_pastBuffer :
    (∃ tokens, storedAlone (groupsMessage []).tokens = some tokens ∧
      ((decode #[] 0 0 4 tokens).outcome = .ok 4 ∧ (#[] : Buffer).size < 4) ∧
      ((decode #[0] 1 0 lastPosition tokens).outcome = .ok lastPosition ∧
        lastPosition < 1 + lastPosition)) ∧
    ∃ tokens, storedAlone (groupsMessage [bareGroup 8]).tokens = some tokens ∧
      (decode #[0, 0, 0, 0] 0 0 0 tokens).outcome = .ok 8 ∧ (#[0, 0, 0, 0] : Buffer).size < 8 := by
  constructor
  · obtain ⟨tokens, isStored⟩ := Option.isSome_iff_exists.mp
      (show (storedAlone (groupsMessage []).tokens).isSome = true by decide +kernel)
    have ends : ∀ tokens ∈ storedAlone (groupsMessage []).tokens,
        (decode #[] 0 0 4 tokens).outcome.toOption = some 4 ∧
          (decode #[0] 1 0 lastPosition tokens).outcome.toOption = some lastPosition := by
      decide +kernel
    obtain ⟨short, long⟩ := ends tokens isStored
    exact ⟨tokens, isStored, ⟨ok_of_toOption short, by decide⟩, ok_of_toOption long, by decide⟩
  · obtain ⟨tokens, isStored⟩ := Option.isSome_iff_exists.mp
      (show (storedAlone (groupsMessage [bareGroup 8]).tokens).isSome = true by decide +kernel)
    have ends : ∀ tokens ∈ storedAlone (groupsMessage [bareGroup 8]).tokens,
        (decode #[0, 0, 0, 0] 0 0 0 tokens).outcome.toOption = some 8 := by
      decide +kernel
    exact ⟨tokens, isStored, ok_of_toOption (ends tokens isStored), by decide⟩

end WireSchema
