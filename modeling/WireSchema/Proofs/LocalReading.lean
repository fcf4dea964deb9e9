/-
Module: WireSchema.Proofs.LocalReading
Purpose: The bytes of a message may stand alone, or among other bytes that come before and behind
  them.  A reader that finds a scalar inside the bytes of the message finds the same one among the
  others, so both readings deliver the same events for as long as the first one does not fail
  (`decode_among`).  That one may fail where the other goes on, as it runs out of bytes earlier.
Main exports: Walk.Foretells, Source.Among, decode_among
-/
import Mathlib.Algebra.Group.Nat.Defs
import WireSchema.Proofs.ConfinedWalks

namespace WireSchema

/-!
Positions are those of the message alone, moved by what stands before it.  Moving commutes with
going forward even where positions do not grow any more, so nothing has to be known of the tokens.
Only at the end a position has to be known to be small, and `decode_confined` says why it is: behind
the root block a walk either stays where it is or has read something not far before its end.
-/

/-! ### Walks that say how another one begins -/

/-- A walk that ends well is the other one, but for the change in its result.  If it fails, its
events are the front of those of the other one. -/
def Walk.Foretells {α β : Type} (change : α → β) (walk : Walk α) (other : Walk β) : Prop :=
  match walk.outcome with
  | .ok result => other.events = walk.events ∧ other.outcome = .ok (change result)
  | .error _ => walk.events <+: other.events

namespace Walk.Foretells

variable {α β α' β' σ τ : Type} {change : α → β} {change' : α' → β'}

theorem done (result : α) : Foretells change (Walk.done result) (Walk.done (change result)) :=
  ⟨rfl, rfl⟩

theorem emit (event : Event) : Foretells id (Walk.emit event) (Walk.emit event) :=
  ⟨rfl, rfl⟩

/-- A walk that fails before its first event says nothing. -/
theorem failed (problem : AccessError) (other : Walk β) :
    Foretells change (Walk.check (.error problem)) other :=
  List.nil_prefix

theorem bind (change : α → β) {walk : Walk α} {other : Walk β} {next : α → Walk α'}
    {otherNext : β → Walk β'} (first : Foretells change walk other)
    (second : ∀ result, Foretells change' (next result) (otherNext (change result))) :
    Foretells change' (walk >>= next) (other >>= otherNext) := by
  obtain ⟨events, outcome⟩ := walk
  obtain ⟨otherEvents, otherOutcome⟩ := other
  cases outcome with
  | error problem =>
      cases otherOutcome with
      | error otherProblem => exact first
      | ok otherResult => exact List.IsPrefix.trans first (List.prefix_append _ _)
  | ok result =>
      obtain ⟨rfl, rfl⟩ := first
      have behind := second result
      rw [ok_bind, ok_bind]
      rw [Foretells] at behind ⊢
      cases isOutcome : (next result).outcome with
      | ok last =>
          rw [isOutcome] at behind
          exact ⟨congrArg (otherEvents ++ ·) behind.1, behind.2⟩
      | error problem =>
          rw [isOutcome] at behind
          exact (List.prefix_append_right_inj otherEvents).mpr behind

/-- A step that delivers nothing and, if it succeeds, says what the other one finds. -/
theorem check_bind (change : α → β) {step : Except AccessError α} {other : Except AccessError β}
    {next : α → Walk α'} {otherNext : β → Walk β'}
    (first : ∀ result, step = .ok result → other = .ok (change result))
    (second : ∀ result, step = .ok result →
      Foretells change' (next result) (otherNext (change result))) :
    Foretells change' (Walk.check step >>= next) (Walk.check other >>= otherNext) := by
  cases step with
  | error problem => exact List.nil_prefix
  | ok result =>
      rw [first result rfl, check_ok_bind, check_ok_bind]
      exact second result rfl

/-- A step that does not look at the bytes. -/
theorem check_same {step : Except AccessError α} {next : α → Walk α'} {otherNext : α → Walk β'}
    (second : ∀ result, step = .ok result →
      Foretells change' (next result) (otherNext result)) :
    Foretells change' (Walk.check step >>= next) (Walk.check step >>= otherNext) :=
  check_bind id (fun _ isResult => isResult) second

theorem bracket (opening closing : Event) (name : String) {walk : Walk α} {other : Walk β}
    (inside : Foretells change walk other) :
    Foretells change (Walk.bracket opening closing name walk)
      (Walk.bracket opening closing name other) := by
  obtain ⟨events, outcome⟩ := walk
  obtain ⟨otherEvents, otherOutcome⟩ := other
  cases outcome with
  | ok result =>
      obtain ⟨rfl, rfl⟩ := inside
      exact ⟨rfl, rfl⟩
  | error problem =>
      have front : opening :: events <+: opening :: otherEvents :=
        (List.prefix_cons_inj opening).mpr inside
      cases otherOutcome with
      | error otherProblem => exact front
      | ok otherResult => exact front.trans (List.prefix_append (opening :: otherEvents) _)

theorem inTurn {change : σ → τ} {step : Nat → σ → Walk σ} {otherStep : Nat → τ → Walk τ}
    (each : ∀ index state,
      Foretells change (step index state) (otherStep index (change state))) (count : Nat) :
    ∀ (index : Nat) (state : σ), Foretells change (Walk.inTurn step index count state)
      (Walk.inTurn otherStep index count (change state)) := by
  induction count with
  | zero => exact fun _ state => done state
  | succ count ih =>
      exact fun index state => (each index state).bind change fun next => ih (index + 1) next

end Walk.Foretells

/-! ### Scalars among other bytes -/

/-- The bytes of a source stand in those of another one, at a distance from their beginning. -/
structure Source.Among (source other : Source) (distance : Nat) : Prop where
  version : other.actingVersion = source.actingVersion
  stands : BytesAt other.buffer distance source.buffer.toList
  small : other.buffer.size ≤ lastPosition

namespace Source.Among

variable {source other : Source} {distance : Nat}

theorem size_le (among : source.Among other distance) :
    distance + source.buffer.size ≤ other.buffer.size := by
  have fits := among.stands.length_le
  rwa [Array.length_toList] at fits

/-- A position inside the bytes, as the other source counts it. -/
theorem moved (among : source.Among other distance) {position : Nat}
    (inside : position ≤ source.buffer.size) :
    advance position distance = distance + position := by
  have fits := among.size_le
  have small := among.small
  rw [advance_of_le (by omega), Nat.add_comm]

/-- Going forward leads to the same place. -/
theorem advance_comm (position first second : Nat) :
    advance (advance position first) second = advance (advance position second) first := by
  rw [advance_advance, advance_advance, Nat.add_comm first]

theorem slice (among : source.Among other distance) {index length : Nat} {content : List UInt8}
    (read : WireSchema.slice source.buffer index length = .ok content) :
    WireSchema.slice other.buffer (advance index distance) length = .ok content := by
  obtain ⟨inside, _⟩ := slice_inside read
  have whole : BytesAt source.buffer 0 source.buffer.toList :=
    ⟨[], [], by rw [List.append_nil, List.nil_append], rfl⟩
  rw [← Array.length_toList] at inside
  have alone := whole.slice_eq index length inside
  rw [Nat.zero_add, read] at alone
  rw [Array.length_toList] at inside
  rw [among.moved (Nat.le_trans (Nat.le_add_right index length) inside), alone]
  exact among.stands.slice_eq index length (by rwa [Array.length_toList])

theorem readPrimitive (among : source.Among other distance) {index : Nat} {type : PrimitiveType}
    {order : ByteOrder} {value : Value}
    (read : WireSchema.readPrimitive source.buffer index type order = .ok value) :
    WireSchema.readPrimitive other.buffer (advance index distance) type order = .ok value := by
  obtain ⟨bytes, isBytes, isValue⟩ := ok_of_bind read
  rw [WireSchema.readPrimitive, among.slice isBytes]
  exact isValue

theorem readUnsigned (among : source.Among other distance) {index : Nat} {token : Token}
    {number : UInt64} (read : WireSchema.readUnsigned source.buffer index token = .ok number) :
    WireSchema.readUnsigned other.buffer (advance index distance) token = .ok number := by
  rw [WireSchema.readUnsigned] at read ⊢
  cases isType : token.encoding.primitiveType with
  | none => simp [isType] at read
  | some type =>
      simp only [isType] at read ⊢
      split at read
      · cases read
      · obtain ⟨value, isValue, isNumber⟩ := ok_of_bind read
        rename_i notFloat
        rw [if_neg notFloat, among.readPrimitive isValue]
        exact isNumber

theorem readElements (among : source.Among other distance) (type : PrimitiveType)
    (order : ByteOrder) (count : Nat) :
    ∀ {earlier : List Value} {position : Nat} {values : List Value},
      WireSchema.readElements source type order earlier position count = .ok values →
      WireSchema.readElements other type order earlier (advance position distance) count =
        .ok values := by
  induction count with
  | zero => exact fun read => read
  | succ count ih =>
      intro earlier position values read
      rw [WireSchema.readElements] at read ⊢
      split at read
      · cases read
      · rename_i value isValue
        rw [among.readPrimitive isValue, advance_comm]
        exact ih read

/-- The place of a token within a block that has moved. -/
theorem positionOf {base position : Nat} {token : Token}
    (placed : WireSchema.positionOf base token = .ok position) :
    WireSchema.positionOf (advance base distance) token = .ok (advance position distance) := by
  rw [WireSchema.positionOf] at placed ⊢
  cases isOffset : fixedOffset token with
  | error problem =>
      rw [isOffset] at placed
      cases placed
  | ok offset =>
      rw [isOffset] at placed
      cases placed
      exact congrArg Except.ok (advance_comm base distance offset)

/-- A value that was read is found among the other bytes. -/
theorem readValue (among : source.Among other distance) {field typeToken : Token} {base : Nat}
    {value : FieldValue} (read : WireSchema.readValue source field typeToken base = .ok value) :
    WireSchema.readValue other field typeToken (advance base distance) = .ok value := by
  rw [WireSchema.readValue] at read ⊢
  cases isConstant : constantOf? field typeToken with
  | some constant =>
      rw [isConstant] at read
      exact read
  | none =>
      cases isType : typeToken.encoding.primitiveType with
      | none => simp [isConstant, isType] at read
      | some type =>
          simp only [isConstant, isType, among.version] at read ⊢
          split at read
          · rename_i newer
            rw [if_pos newer]
            exact read
          · rename_i known
            obtain ⟨position, isPosition, read⟩ := ok_of_bind read
            rw [if_neg known, bind_of_ok (positionOf isPosition)]
            split at read
            · rename_i isText
              obtain ⟨content, isContent, isValue⟩ := ok_of_bind read
              rw [if_pos isText, bind_of_ok (among.slice isContent)]
              exact isValue
            · rename_i notText
              obtain ⟨values, isValues, isValue⟩ := ok_of_bind read
              rw [if_neg notText, bind_of_ok (among.readElements _ _ _ isValues)]
              exact isValue

/-- Variable data have the same content, and end at the same place. -/
theorem readVarData (among : source.Among other distance) {position : Nat}
    {field lengthToken dataToken : Token} {read : List UInt8 × Nat}
    (isRead : walkVarData.readVarData source position field lengthToken dataToken = .ok read) :
    walkVarData.readVarData other (advance position distance) field lengthToken dataToken =
      .ok (read.1, advance read.2 distance) := by
  rw [walkVarData.readVarData] at isRead ⊢
  rw [among.version]
  split at isRead
  · rename_i known
    obtain ⟨lengthAt, isLengthAt, isRead⟩ := ok_of_bind isRead
    obtain ⟨length, isLength, isRead⟩ := ok_of_bind isRead
    obtain ⟨start, isStart, isRead⟩ := ok_of_bind isRead
    obtain ⟨content, isContent, isRead⟩ := ok_of_bind isRead
    cases isRead
    obtain ⟨inside, sameLength⟩ := slice_inside isContent
    rw [if_pos known, bind_of_ok (positionOf isLengthAt), bind_of_ok (among.readUnsigned isLength),
      bind_of_ok (positionOf isStart), bind_of_ok (among.slice isContent)]
    have startMoved : advance start distance = distance + start := among.moved (by omega)
    have endMoved : advance (start + content.length) distance =
        distance + (start + content.length) := among.moved (by omega)
    simp only [startMoved, endMoved, Nat.add_assoc]
  · rename_i newer
    cases isRead
    rw [if_neg newer]

/-- There is as much room among the other bytes, as those end later. -/
theorem room (among : source.Among other distance) {start needed : Nat}
    (fits : ¬ source.buffer.size - start < min needed lastPosition) :
    ¬ other.buffer.size - advance start distance < min needed lastPosition := by
  have longer := among.size_le
  have small := among.small
  rw [advance]
  omega

/-- A group has the same size, and its first entry is at the same place. -/
theorem readGroupSize (among : source.Among other distance) {group : Token}
    {dimensions : Dimensions} {position : Nat} {size : GroupSize}
    (read : WireSchema.readGroupSize source group dimensions position = .ok size) :
    WireSchema.readGroupSize other group dimensions (advance position distance) =
      .ok { size with start := advance size.start distance } := by
  rw [WireSchema.readGroupSize] at read ⊢
  rw [among.version]
  by_cases known : group.version ≤ source.actingVersion
  · rw [if_pos known] at read ⊢
    obtain ⟨blockLengthAt, isBlockLengthAt, read⟩ := ok_of_bind read
    obtain ⟨blockLength, isBlockLength, read⟩ := ok_of_bind read
    obtain ⟨numInGroupAt, isNumInGroupAt, read⟩ := ok_of_bind read
    obtain ⟨numInGroup, isNumInGroup, read⟩ := ok_of_bind read
    obtain ⟨length, isLength, read⟩ := ok_of_bind read
    rw [bind_of_ok (positionOf isBlockLengthAt), bind_of_ok (among.readUnsigned isBlockLength),
      bind_of_ok (positionOf isNumInGroupAt), bind_of_ok (among.readUnsigned isNumInGroup),
      bind_of_ok isLength, advance_comm]
    simp only [bind, Except.bind] at read ⊢
    split at read
    · cases read
    · rename_i fits
      cases read
      rw [if_neg (among.room fits)]
  · rw [if_neg known] at read ⊢
    simp only [bind, Except.bind] at read ⊢
    split at read
    · cases read
    · rename_i fits
      cases read
      rw [if_neg (among.room fits)]

end Source.Among

/-! ### Walks among other bytes -/

variable {source other : Source} {distance : Nat}

theorem walkEnum_foretells (among : source.Among other distance) (field : Token)
    (range : List Token) (opening : Token) (base : Nat) :
    (walkEnum source field range opening base).Foretells id
      (walkEnum other field range opening (advance base distance)) := by
  refine .check_bind id (fun value isValue => ?_) fun value _ => .emit _
  split at isValue
  · rename_i isConstant
    rwa [if_pos isConstant]
  · rename_i notConstant
    rw [if_neg notConstant]
    exact among.readValue isValue

mutual

theorem walkComponent_foretells (among : source.Among other distance) (field : Token)
    (base : Nat) : ∀ tokens : List Token,
      (walkComponent source field base tokens).Foretells id
        (walkComponent other field (advance base distance) tokens)
  | [] => by
      rw [walkComponent.eq_def, walkComponent.eq_def]
      exact .done ()
  | token :: following => by
      rw [walkComponent.eq_def, walkComponent.eq_def]
      simp only
      split
      · exact .check_bind id (fun _ isValue => among.readValue isValue) fun _ _ => .emit _
      · exact .check_same fun range _ => walkEnum_foretells among field range token base
      · exact .check_same fun _ _ =>
          .check_bind id (fun _ isValue => among.readValue isValue) fun _ _ => .emit _
      · refine .check_same fun range _ => ?_
        refine .check_bind (advance · distance) (fun _ placed => Source.Among.positionOf placed) ?_
        exact fun start _ => .bracket _ _ _
          (walkMembers_foretells among field start (range.length - 2) following)
      · exact .done ()
termination_by tokens => 2 * tokens.length

theorem walkMembers_foretells (among : source.Among other distance) (field : Token)
    (start : Nat) : ∀ (limit : Nat) (tokens : List Token),
      (walkMembers source field start limit tokens).Foretells id
        (walkMembers other field (advance start distance) limit tokens)
  | 0, _ => by
      rw [walkMembers.eq_def, walkMembers.eq_def]
      exact .done ()
  | _ + 1, [] => by
      rw [walkMembers.eq_def, walkMembers.eq_def]
      exact .done ()
  | limit + 1, token :: following => by
      rw [walkMembers.eq_def, walkMembers.eq_def]
      exact .bind id (walkComponent_foretells among field start (token :: following)) fun _ =>
        walkMembers_foretells among field start (limit + 1 - token.span)
          ((token :: following).drop token.span)
termination_by _ tokens => 2 * tokens.length + 1
decreasing_by
  · simp only [List.length_cons]
    omega
  · have positive := token.span_pos
    simp only [List.length_drop, List.length_cons]
    omega

end

theorem walkFields_foretells (among : source.Among other distance) (base limit : Nat)
    (tokens : List Token) :
    (walkFields source base limit tokens).Foretells id
      (walkFields other (advance base distance) limit tokens) := by
  fun_induction walkFields source base limit tokens with
  | case1 =>
      rw [walkFields.eq_def]
      exact .done ()
  | case2 limit =>
      rw [walkFields.eq_def]
      cases limit <;> exact .done ()
  | case3 limit field following isField ih =>
      rw [walkFields.eq_def other]
      simp only [if_pos isField]
      exact .bind id (walkComponent_foretells among field base following) fun _ => ih
  | case4 limit field following otherwise =>
      rw [walkFields.eq_def other]
      simp only [if_neg otherwise]
      exact .done ()

theorem walkVarData_foretells (among : source.Among other distance) (position limit : Nat)
    (tokens : List Token) :
    (walkVarData source position limit tokens).Foretells (advance · distance)
      (walkVarData other (advance position distance) limit tokens) := by
  fun_induction walkVarData source position limit tokens with
  | case1 =>
      rw [walkVarData.eq_def]
      exact .done _
  | case2 position limit =>
      rw [walkVarData.eq_def]
      cases limit <;> exact .done position
  | case3 position limit field following isField ih =>
      rw [walkVarData.eq_def other]
      simp only [if_pos isField]
      refine .check_same fun range _ => .check_same fun layout _ => ?_
      refine .check_bind (fun read => (read.1, advance read.2 distance))
        (fun read isRead => among.readVarData isRead) fun read _ => ?_
      exact .bind id (.emit _) fun _ => ih read.2
  | case4 position limit field following otherwise =>
      rw [walkVarData.eq_def other]
      simp only [if_neg otherwise]
      exact .done _

mutual

theorem walkGroups_foretells (among : source.Among other distance) :
    ∀ (position limit : Nat) (tokens : List Token),
      (walkGroups source position limit tokens).Foretells (advance · distance)
        (walkGroups other (advance position distance) limit tokens)
  | position, 0, _ => by
      rw [walkGroups.eq_def, walkGroups.eq_def]
      exact .done position
  | position, _ + 1, [] => by
      rw [walkGroups.eq_def, walkGroups.eq_def]
      exact .done position
  | position, limit + 1, group :: following => by
      rw [walkGroups.eq_def, walkGroups.eq_def]
      simp only
      split
      · refine .check_same fun range _ => .check_same fun dimensions _ => ?_
        refine .check_bind (fun size => { size with start := advance size.start distance })
          (fun size isSize => among.readGroupSize isSize) fun size _ => ?_
        refine .bind id (.emit _) fun _ => ?_
        rw [Walk.iterate_eq_inTurn, Walk.iterate_eq_inTurn]
        refine .bind (advance · distance) ?_ fun next => walkGroups_foretells among next
          (limit + 1 - group.span) ((group :: following).drop group.span)
        exact .inTurn (fun index start => .bracket _ _ _ (walkBlock_foretells among start
          size.blockLength _ (following.drop dimensions.composite.span))) _ _ _
      · exact .done position
termination_by _ _ tokens => 2 * tokens.length
decreasing_by
  · simp only [List.length_drop, List.length_cons]
    omega
  · have positive := group.span_pos
    simp only [List.length_drop, List.length_cons]
    omega

theorem walkBlock_foretells (among : source.Among other distance)
    (start blockLength limit : Nat) (tokens : List Token) :
    (walkBlock source start blockLength limit tokens).Foretells (advance · distance)
      (walkBlock other (advance start distance) blockLength limit tokens) := by
  rw [walkBlock.eq_def, walkBlock.eq_def, Source.Among.advance_comm]
  refine .bind id (walkFields_foretells among start limit tokens) fun _ => ?_
  refine .bind (advance · distance) ?_ fun _ => walkVarData_foretells among _ _ _
  exact walkGroups_foretells among _ _ (passSection .beginField limit tokens).2
termination_by 2 * tokens.length + 1
decreasing_by
  have shorter := passSection_length_le .beginField limit tokens
  omega

end

/-- Reading a message says what is read in a larger buffer around it. -/
theorem walkMessage_foretells (among : source.Among other distance) (offset blockLength : Nat)
    (tokens : List Token) :
    (walkMessage source offset blockLength tokens).Foretells (advance · distance)
      (walkMessage other (advance offset distance) blockLength tokens) := by
  rw [walkMessage.eq_def, walkMessage.eq_def]
  cases tokens with
  | nil => exact .failed _ _
  | cons opening following =>
      simp only
      split
      · exact .failed _ _
      · split
        · exact .bracket _ _ _ (walkBlock_foretells among offset blockLength _ following)
        · exact .failed _ _

/-! ### The message alone and among other bytes -/

/-- The events of a message alone are the front of its events among other bytes.  If the message can
be read alone, the events are the same, and it ends at the same place. -/
theorem decode_among (before buffer behind : Buffer) (offset : Nat) (actingVersion : Int32)
    (blockLength : Nat) (tokens : List Token)
    (addressable : before.size + buffer.size + behind.size + offset + blockLength < 2 ^ 63) :
    let alone := decode buffer offset actingVersion blockLength tokens
    let among := decode (before ++ buffer ++ behind) (before.size + offset) actingVersion
      blockLength tokens
    alone.events <+: among.events ∧
      ∀ position, alone.outcome = .ok position →
        among.outcome = .ok (before.size + position) ∧ among.events = alone.events := by
  intro alone among
  have sizes : (before ++ buffer ++ behind).size = before.size + buffer.size + behind.size := by
    rw [Array.size_append, Array.size_append]
  have limits : lastPosition = 2 ^ 64 - 1 := rfl
  have stands : (Source.mk buffer actingVersion).Among ⟨before ++ buffer ++ behind, actingVersion⟩
      before.size := by
    refine ⟨rfl, ⟨before.toList, behind.toList, ?_, Array.length_toList⟩, ?_⟩
    · rw [Array.toList_append, Array.toList_append, List.append_assoc]
    · simp only [sizes]
      omega
  have foretold := walkMessage_foretells stands offset blockLength tokens
  rw [advance_of_le (by omega), Nat.add_comm offset] at foretold
  change alone.Foretells (advance · before.size) among at foretold
  cases isOutcome : alone.outcome with
  | error problem =>
      rw [Walk.Foretells, isOutcome] at foretold
      exact ⟨foretold, fun position impossible => by cases impossible⟩
  | ok last =>
      rw [Walk.Foretells, isOutcome] at foretold
      obtain ⟨sameEvents, isLast⟩ := foretold
      refine ⟨sameEvents ▸ List.prefix_refl _, fun position isPosition => ?_⟩
      cases isPosition
      have close : last ≤ buffer.size + 2 ^ 32 + offset + blockLength := by
        have ends : EndsBefore (Source.mk buffer actingVersion).buffer (buffer.size + Int32.size) :=
          ⟨by simp only; omega, Nat.le_refl _⟩
        have size : Int32.size = 2 ^ 32 := rfl
        rcases decode_confined ends isOutcome with isEnd | inside
        · rw [isEnd, advance]
          omega
        · omega
      rw [advance_of_le (by omega), Nat.add_comm] at isLast
      exact ⟨isLast, sameEvents⟩

/-- An order between other bytes: it ends thirteen bytes behind its start there too. -/
theorem decode_among_order :
    ∃ tokens, storedAlone orderMessage.tokens = some tokens ∧
      let before : Buffer := #[255, 255]
      let buffer : Buffer := #[1, 0, 0, 0, 0, 0, 0, 1, 0, 2, 0, 72, 105]
      let behind : Buffer := #[255]
      let alone := decode buffer 0 1 5 tokens
      let among := decode (before ++ buffer ++ behind) (before.size + 0) 1 5 tokens
      before.size + buffer.size + behind.size + 0 + 5 < 2 ^ 63 ∧ alone.outcome = .ok 13 ∧
        among.outcome = .ok (before.size + 13) ∧ among.events = alone.events := by
  obtain ⟨tokens, isStored⟩ := Option.isSome_iff_exists.mp
    (show (storedAlone orderMessage.tokens).isSome = true by decide +kernel)
  have succeeds : (decode #[1, 0, 0, 0, 0, 0, 0, 1, 0, 2, 0, 72, 105] 0 1 5 tokens).outcome =
      .ok 13 := by
    have all : ∀ tokens ∈ storedAlone orderMessage.tokens,
        (decode #[1, 0, 0, 0, 0, 0, 0, 1, 0, 2, 0, 72, 105] 0 1 5 tokens).outcome.toOption =
          some 13 := by decide +kernel
    exact ok_of_toOption (all tokens isStored)
  have addressable : (#[255, 255] : Buffer).size +
      (#[1, 0, 0, 0, 0, 0, 0, 1, 0, 2, 0, 72, 105] : Buffer).size + (#[255] : Buffer).size + 0 + 5 <
        2 ^ 63 := by decide
  obtain ⟨isLast, sameEvents⟩ := (decode_among _ _ _ 0 1 5 tokens addressable).2 13 succeeds
  exact ⟨tokens, isStored, addressable, succeeds, isLast, sameEvents⟩

end WireSchema
