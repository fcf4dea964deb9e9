/-
Module: WireSchema.Proofs.UntrappedReading
Purpose: A reader meets no trap, whatever tokens it is given.  Carried out by indices, with every
  access and every sum guarded, a reading is completed and is the walk along the tokens
  (`decode_untrapped`).  Nothing is asked of the tokens: spans may be wrong, leave the list or
  overlap.
Main exports: Guarded.PassesTo, Guarded.InMemory, decode_untrapped
-/
import Mathlib.Algebra.Group.Nat.Defs
import WireSchema.Proofs.EndPosition
import WireSchema.Proofs.GuardedReading

namespace WireSchema

/-!
What holds the indices in place are the bounds of the loops.  A loop ends in front of the last
token of its construct, so the token behind the one it looks at exists; a construct was found
inside the list as a whole; and a span, an offset or a length is a number of 31 bits, which added to
an index of a list in memory is still a word.
-/

namespace Guarded

variable {α β γ σ : Type}

/-! ### Guarded walks in sequence -/

@[simp] theorem pure_bind (result : α) (next : α → Guarded β) :
    (pure result : Guarded α) >>= next = next result := by
  change andThen (.completed (Walk.done result)) next = next result
  rw [andThen, Walk.done]
  dsimp only
  cases next result with
  | trapped trap => rfl
  | completed walk => rfl

/-- A completed walk goes on as a walk where what follows its result is completed. -/
theorem completed_bind {walk : Walk α} {next : α → Guarded β} {later : α → Walk β}
    (completes : ∀ result, walk.outcome = .ok result → next result = .completed (later result)) :
    Guarded.completed walk >>= next = .completed (walk >>= later) := by
  obtain ⟨events, outcome⟩ := walk
  cases outcome with
  | error problem => rfl
  | ok result =>
      change andThen (.completed ⟨events, .ok result⟩) next = _
      rw [andThen]
      dsimp only
      rw [completes result rfl]
      rfl

/-- The same behind a result that is changed before it is handed on. -/
theorem completed_map_bind {walk : Walk α} {change : α → β} {next : β → Guarded γ}
    {later : α → Walk γ}
    (completes : ∀ result, walk.outcome = .ok result →
      next (change result) = .completed (later result)) :
    Guarded.completed (walk >>= fun result => Walk.done (change result)) >>= next =
      .completed (walk >>= later) := by
  obtain ⟨events, outcome⟩ := walk
  cases outcome with
  | error problem => rfl
  | ok result =>
      have goesOn : Guarded.completed ⟨events, .ok result⟩ >>=
          (fun result => next (change result)) = .completed (⟨events, .ok result⟩ >>= later) :=
        completed_bind completes
      rw [Walk.ok_bind, ← goesOn, Walk.done, List.append_nil]
      rfl

/-- Steps that deliver nothing, one after another. -/
theorem check_bind {step : Except AccessError α} {next : α → Guarded β}
    {later : α → Except AccessError β}
    (completes : ∀ result, step = .ok result → next result = check (later result)) :
    check step >>= next = check (step >>= later) := by
  cases step with
  | error problem => rfl
  | ok result =>
      rw [check, Walk.check, Except.mapError]
      exact (pure_bind result next).trans (completes result rfl)

theorem inTurn_completed {step : Nat → σ → Guarded σ} {walk : Nat → σ → Walk σ}
    (each : ∀ index state, step index state = .completed (walk index state)) (count : Nat) :
    ∀ (index : Nat) (state : σ),
      inTurn step index count state = .completed (Walk.inTurn walk index count state) := by
  induction count with
  | zero =>
      intro index state
      rfl
  | succ count ih =>
      intro index state
      rw [inTurn, Walk.inTurn, each]
      exact completed_bind fun next _ => ih (index + 1) next

/-! ### Guards that let a step pass -/

theorem add_eq {left right : Nat} (fits : left + right < UInt64.size) :
    add left right = pure ⟨left + right, rfl⟩ :=
  if_pos fits

theorem subtract_eq {left right : Nat} (ordered : right ≤ left) :
    subtract left right = pure ⟨left - right, rfl⟩ :=
  if_pos ordered

theorem multiply_eq {left right : Nat} (fits : left * right < UInt64.size) :
    multiply left right = pure ⟨left * right, rfl⟩ :=
  if_pos fits

theorem divide_eq {left right : Nat} (positive : 0 < right) :
    divide left right = pure ⟨left / right, rfl⟩ :=
  if_neg (Nat.ne_of_gt positive)

theorem tokenAt_eq {tokens : List Token} {index : Nat} {token : Token}
    (found : tokens[index]? = some token) :
    tokenAt tokens index = pure ⟨token, (List.getElem?_eq_some_iff.mp found).1, found⟩ := by
  obtain ⟨inside, isToken⟩ := List.getElem?_eq_some_iff.mp found
  subst isToken
  exact dif_pos inside

theorem stretch_eq {list : List α} {start stop : Nat} (ordered : start ≤ stop)
    (inside : stop ≤ list.length) :
    stretch list start stop = pure ((list.take stop).drop start) :=
  if_pos ⟨ordered, inside⟩

/-! ### Scalars -/

variable {buffer : Buffer}

/-- Two ways to find the bytes of a stretch. -/
theorem extract_eq (buffer : Buffer) (start stop : Nat) :
    (buffer.toList.take stop).drop start = (buffer.extract start stop).toList := by
  rw [Array.toList_extract, List.extract_eq_take_drop, List.drop_take]

theorem readSlice_eq (small : buffer.size < UInt64.size) (index length : Nat) :
    readSlice buffer index length = check (slice buffer index length) := by
  rw [readSlice, slice, sum?]
  by_cases inside : index + length ≤ buffer.size
  · have fits : index + length < UInt64.size := Nat.lt_of_le_of_lt inside small
    rw [if_pos fits, if_pos inside, Option.bind_some, stretch?, if_pos ⟨by omega, inside⟩,
      extract_eq]
    rfl
  · rw [if_neg inside]
    split
    · rename_i content found
      obtain ⟨stop, isStop, found⟩ := Option.bind_eq_some_iff.mp found
      have bounds := (length_stretch? found).2.1
      split at isStop
      · cases isStop
        exact absurd bounds inside
      · cases isStop
    · rfl

theorem window_eq (small : buffer.size < UInt64.size) (index width : Nat) :
    window buffer index width = check (slice buffer index width) := by
  rw [window, slice, sum?]
  by_cases inside : index + width ≤ buffer.size
  · have fits : index + width < UInt64.size := Nat.lt_of_le_of_lt inside small
    have whole : ((buffer.toList.take (index + width)).drop index).length = width := by
      rw [List.length_drop, List.length_take, Array.length_toList]
      omega
    rw [if_pos fits, if_pos inside, Option.filter_some, if_pos (decide_eq_true inside)]
    dsimp only
    rw [stretch_eq (by omega) inside, pure_bind, copy, if_pos whole, extract_eq]
    rfl
  · rw [if_neg inside]
    split
    · rename_i stop found
      obtain ⟨isStop, bounded⟩ := Option.filter_eq_some_iff.mp found
      split at isStop
      · cases isStop
        exact absurd (of_decide_eq_true bounded) inside
      · cases isStop
    · rfl

theorem readScalar_eq (small : buffer.size < UInt64.size) (index : Nat) (type : PrimitiveType)
    (order : ByteOrder) :
    readScalar buffer index type order = check (readPrimitive buffer index type order) := by
  rw [readScalar, window_eq small, readPrimitive]
  exact check_bind fun bytes _ => rfl

theorem readNumber_eq (small : buffer.size < UInt64.size) (index : Nat) (token : Token) :
    readNumber buffer index token = check (readUnsigned buffer index token) := by
  rw [readNumber, readUnsigned]
  cases token.encoding.primitiveType with
  | none => rfl
  | some type =>
      dsimp only
      split
      · rfl
      · rw [readScalar_eq small]
        refine check_bind fun value _ => ?_
        cases value.toUInt64? with
        | none => rfl
        | some number => rfl

theorem countScalars_eq (token : Token) : countScalars token = pure token.arrayLength := by
  rw [countScalars, Token.arrayLength]
  cases token.encoding.primitiveType with
  | none => rfl
  | some type =>
      dsimp only
      split
      · rw [divide_eq type.size_pos, pure_bind]
      · rfl

theorem toNatClampNeg_lt (number : Int32) : number.toNatClampNeg < 2 ^ 31 := by
  have bound := number.toInt_lt
  rw [Int32.toNatClampNeg]
  omega

/-- An array of scalars is not longer than an encoded length can say. -/
theorem arrayLength_mul_size_lt (token : Token) (type : PrimitiveType)
    (typed : token.encoding.primitiveType = some type) :
    token.arrayLength * type.size < UInt64.size := by
  have bound := toNatClampNeg_lt token.encodedLength
  have narrow : type.size ≤ 8 := by cases type <;> decide
  rw [Token.arrayLength, typed]
  dsimp only
  split
  · exact Nat.lt_of_le_of_lt (Nat.div_mul_le_self _ _) (Nat.lt_trans bound (by decide))
  · rw [Nat.one_mul]
    exact Nat.lt_of_le_of_lt narrow (by decide)

variable {source : Source}

/-- The scalar at an index of an array is read where the one before it ended. -/
theorem readArray_eq (small : source.buffer.size < UInt64.size) (type : PrimitiveType)
    (order : ByteOrder) (position : Nat) (count : Nat) :
    ∀ (earlier : List Value) (index : Nat), (index + count) * type.size < UInt64.size →
      readArray source type order position earlier index count =
        check (readElements source type order earlier (advance position (index * type.size))
          count) := by
  induction count with
  | zero =>
      intro earlier index fits
      rfl
  | succ count ih =>
      intro earlier index fits
      have product : index * type.size < UInt64.size :=
        Nat.lt_of_le_of_lt (Nat.mul_le_mul_right type.size (Nat.le_add_right _ _)) fits
      have next : advance (advance position (index * type.size)) type.size =
          advance position ((index + 1) * type.size) := by
        rw [advance_advance, Nat.succ_mul]
      rw [readArray, multiply_eq product, pure_bind]
      dsimp only
      rw [readScalar_eq small, readElements]
      cases readPrimitive source.buffer (advance position (index * type.size)) type order with
      | error problem => rfl
      | ok value =>
          dsimp only
          rw [next, ← ih (value :: earlier) (index + 1) (by rwa [Nat.succ_add_eq_add_succ])]
          exact pure_bind value _

theorem fieldValue_eq (small : source.buffer.size < UInt64.size) (field typeToken : Token)
    (base : Nat) :
    fieldValue source field typeToken base = check (readValue source field typeToken base) := by
  rw [fieldValue, readValue]
  cases constantOf? field typeToken with
  | some value => rfl
  | none =>
      cases typed : typeToken.encoding.primitiveType with
      | none => rfl
      | some type =>
          dsimp only
          split
          · rfl
          · refine check_bind fun position placed => ?_
            have bounded : position ≤ lastPosition := by
              rw [positionOf_eq_ok placed]
              exact advance_le_lastPosition _ _
            have start : advance position (0 * type.size) = position := by
              rw [Nat.zero_mul, advance, Nat.add_zero, Nat.min_eq_left bounded]
            rw [countScalars_eq, pure_bind]
            split
            · rw [readSlice_eq small]
              exact check_bind fun content _ => rfl
            · have fits := arrayLength_mul_size_lt typeToken type typed
              rw [readArray_eq small type _ position _ [] 0 (by rwa [Nat.zero_add]), start]
              exact check_bind fun values _ => rfl

/-! ### Constructs -/

variable {tokens : List Token}

/-- What is left of a limit in front of a token that is inside it. -/
theorem limit_eq {index stop : Nat} (before : index < stop) :
    stop - index = stop - (index + 1) + 1 := by
  omega

/-- Passing over the constructs of a signal leads from one index to another. -/
def PassesTo (signal : Signal) (tokens : List Token) (stop index next : Nat) : Prop :=
  passSection signal (stop - index) (tokens.drop index) = (stop - next, tokens.drop next)

namespace PassesTo

variable {signal : Signal} {stop index next : Nat} {token : Token}

theorem beyond (outside : stop ≤ index) : PassesTo signal tokens stop index index := by
  rw [PassesTo, Nat.sub_eq_zero_of_le outside, passSection.eq_def]

theorem other (before : index < stop) (found : tokens[index]? = some token)
    (another : token.signal ≠ signal) : PassesTo signal tokens stop index index := by
  rw [PassesTo, limit_eq before, drop_eq_cons found, passSection, if_neg another]

theorem across (before : index < stop) (found : tokens[index]? = some token)
    (same : token.signal = signal)
    (later : PassesTo signal tokens stop (index + token.span) next) :
    PassesTo signal tokens stop index next := by
  rw [PassesTo, limit_eq before, drop_eq_cons found, passSection, if_pos same, ← limit_eq before,
    ← drop_eq_cons found, List.drop_drop, ← Nat.sub_add_eq]
  exact later

end PassesTo

/-- An index in a list in memory, a span further on, is still a word. -/
theorem add_span_lt (addressable : tokens.length < 2 ^ 63) {index : Nat}
    (inside : index < tokens.length) (token : Token) : index + token.span < UInt64.size := by
  have bound := toNatClampNeg_lt token.storedSpan
  have size : UInt64.size = 2 ^ 64 := rfl
  rw [Token.span]
  omega

theorem ConstructAt.upTo?_eq_some {index stop : Nat} (inside : stop ≤ tokens.length)
    (closed : index + 2 ≤ stop) :
    ∃ found : ConstructAt tokens index, ConstructAt.upTo? tokens index stop = some found ∧
      found.range = (tokens.drop index).take (stop - index) := by
  have isRange : stretch? tokens index stop = some ((tokens.drop index).take (stop - index)) := by
    rw [stretch?, if_pos ⟨by omega, inside⟩, List.drop_take]
  have length := (length_stretch? isRange).2.2
  rw [ConstructAt.upTo?.eq_def]
  split
  · rename_i range found
    cases isRange.symm.trans found
    rw [dif_pos (by omega)]
    exact ⟨_, rfl, rfl⟩
  · rename_i found
    cases isRange.symm.trans found

theorem ConstructAt.upTo?_eq_none {index stop : Nat}
    (beyond : ¬ (stop ≤ tokens.length ∧ index + 2 ≤ stop)) :
    ConstructAt.upTo? tokens index stop = none := by
  cases found : ConstructAt.upTo? tokens index stop with
  | none => rfl
  | some construct =>
    rw [ConstructAt.upTo?.eq_def] at found
    split at found
    · rename_i range isRange
      have length := length_stretch? isRange
      split at found
      · omega
      · cases found
    · cases found

/-- The construct that a token opens is the same by its index and along the tokens. -/
theorem constructAt_bind {index : Nat} {token : Token} (found : tokens[index]? = some token)
    (fits : index + token.span < UInt64.size) {next : ConstructAt tokens index → Guarded β}
    {later : List Token → Walk β}
    (completes : ∀ range closed inside, range[0]? = some token → range.length = token.span →
      next ⟨range, closed, inside⟩ = .completed (later range)) :
    constructAt tokens index >>= next =
      .completed (Walk.check (construct token (tokens.drop (index + 1))) >>= later) := by
  have suffix := drop_eq_cons found
  have opened : constructAt tokens index =
      (ConstructAt.upTo? tokens index (index + token.span)).elim
        (check (.error (layoutError token "a closed BEGIN/END construct"))) pure := by
    rw [constructAt, tokenAt_eq found, pure_bind]
    dsimp only
    rw [add_eq fits, pure_bind]
    cases ConstructAt.upTo? tokens index (index + token.span) <;> rfl
  have length : ((tokens.drop index).take token.span).length =
      min token.span (tokens.length - index) := by
    rw [List.length_take, List.length_drop]
  rw [opened, construct, ← suffix, length]
  by_cases closed : index + token.span ≤ tokens.length ∧ index + 2 ≤ index + token.span
  · obtain ⟨⟨range, two, inside⟩, isConstruct, isRange⟩ :=
      ConstructAt.upTo?_eq_some closed.1 closed.2
    rw [Nat.add_sub_cancel_left] at isRange
    subst isRange
    rw [isConstruct, Option.elim_some, if_pos (by omega), pure_bind, Walk.check_ok_bind]
    have first : ((tokens.drop index).take token.span)[0]? = some token := by
      rw [suffix, List.getElem?_take_of_lt token.span_pos]
      rfl
    exact completes _ _ _ first (by omega)
  · rw [ConstructAt.upTo?_eq_none closed, if_neg (by omega)]
    rfl

/-! ### Components -/

/-- The bytes and the tokens stand in memory, where an array ends before the first word that would
be negative if it had a sign. -/
structure InMemory (source : Source) (tokens : List Token) : Prop where
  bytes : source.buffer.size < 2 ^ 63
  tokens : tokens.length < 2 ^ 63

theorem InMemory.small (inMemory : InMemory source tokens) :
    source.buffer.size < UInt64.size :=
  Nat.lt_trans inMemory.bytes (by decide)

section InMemory

variable (inMemory : InMemory source tokens)
include inMemory

theorem readEnum_eq (field : Token) {index base : Nat} {token : Token}
    (found : tokens[index]? = some token) :
    readEnum source tokens field index base =
      .completed (Walk.check (construct token (tokens.drop (index + 1))) >>= fun range =>
        walkEnum source field range token base) := by
  have inside := (List.getElem?_eq_some_iff.mp found).1
  rw [readEnum]
  have fits := add_span_lt inMemory.tokens inside token
  refine constructAt_bind found fits fun range closed _ first _ => ?_
  have values : (range.take (range.length - 1)).drop 1 = (range.drop 1).dropLast := by
    rw [List.dropLast_eq_take, List.length_drop, List.drop_take]
  simp only [subtract_eq (show 1 ≤ range.length by omega), pure_bind,
    stretch_eq (show 1 ≤ range.length - 1 by omega) (Nat.sub_le _ _), values]
  rw [walkEnum]
  split
  · exact completed_bind fun value _ => rfl
  · simp only [tokenAt_eq first, pure_bind, fieldValue_eq inMemory.small]
    exact completed_bind fun value _ => rfl

theorem readSet_eq (field : Token) {index base : Nat} {token : Token}
    (found : tokens[index]? = some token) :
    readSet source tokens field index base =
      .completed (Walk.check (construct token (tokens.drop (index + 1))) >>= fun range =>
        Walk.check (readValue source field token base) >>= fun value =>
          Walk.emit (.bitSet field range value)) := by
  have inside := (List.getElem?_eq_some_iff.mp found).1
  rw [readSet]
  have fits := add_span_lt inMemory.tokens inside token
  refine constructAt_bind found fits fun range _ _ first _ => ?_
  simp only [tokenAt_eq first, pure_bind, fieldValue_eq inMemory.small]
  exact completed_bind fun value _ => rfl

mutual

theorem readComponent_eq (field : Token) {index base : Nat} {token : Token}
    (found : tokens[index]? = some token) :
    readComponent source tokens field index base =
      .completed (walkComponent source field base (tokens.drop index)) := by
  have inside := (List.getElem?_eq_some_iff.mp found).1
  have fits := add_span_lt inMemory.tokens inside token
  have size : UInt64.size = 2 ^ 64 := rfl
  rw [readComponent, drop_eq_cons found, walkComponent]
  simp only [tokenAt_eq found, pure_bind]
  cases token.signal with
  | encoding =>
      dsimp only
      rw [fieldValue_eq inMemory.small]
      exact completed_bind fun value _ => rfl
  | beginEnum => exact readEnum_eq inMemory field found
  | beginSet => exact readSet_eq inMemory field found
  | beginComposite =>
      refine constructAt_bind found fits fun range closed within first _ => ?_
      simp only [tokenAt_eq first, pure_bind]
      refine completed_bind fun start _ => ?_
      simp only [add_eq (show index + range.length < UInt64.size by omega), pure_bind,
        subtract_eq (show 1 ≤ index + range.length by omega),
        add_eq (show index + 1 < UInt64.size by omega)]
      have limit : index + range.length - 1 - (index + 1) = range.length - 2 := by omega
      rw [readMembers_eq field start (show index + range.length - 1 < tokens.length by omega),
        limit]
      rfl
  | _ => rfl
termination_by 2 * (tokens.length - index)
decreasing_by omega

theorem readMembers_eq (field : Token) (start : Nat) {index stop : Nat}
    (inside : stop < tokens.length) :
    readMembers source tokens field start index stop =
      .completed (walkMembers source field start (stop - index) (tokens.drop index)) := by
  rw [readMembers, walkMembers.eq_def]
  split
  · rename_i before
    obtain ⟨token, found⟩ : ∃ token, tokens[index]? = some token :=
      ⟨_, List.getElem?_eq_getElem (Nat.lt_trans before inside)⟩
    have positive := token.span_pos
    obtain ⟨limit, isLimit⟩ : ∃ limit, stop - index = limit + 1 := ⟨stop - index - 1, by omega⟩
    have fits := add_span_lt inMemory.tokens (Nat.lt_trans before inside) token
    simp only [tokenAt_eq found, pure_bind, readComponent_eq field found, add_eq fits]
    rw [isLimit, drop_eq_cons found]
    dsimp only
    refine completed_bind fun _ _ => ?_
    rw [readMembers_eq field start inside, ← isLimit, ← drop_eq_cons found, List.drop_drop,
      Nat.sub_add_eq]
  · rename_i beyond
    rw [Nat.sub_eq_zero_of_le (Nat.le_of_not_lt beyond)]
    rfl
termination_by 2 * (tokens.length - index) + 1

end

/-! ### Sections -/

/-- The loop over the fields ends at the index behind the section. -/
theorem readFields_eq (base : Nat) {stop : Nat} (inside : stop < tokens.length) (index : Nat) :
    ∃ next : { next : Nat // index ≤ next }, PassesTo .beginField tokens stop index next ∧
      readFields source tokens index stop base =
        .completed (walkFields source base (stop - index) (tokens.drop index) >>= fun _ =>
          Walk.done next) := by
  rw [readFields, walkFields.eq_def]
  split
  · rename_i before
    obtain ⟨field, found⟩ : ∃ token, tokens[index]? = some token :=
      ⟨_, List.getElem?_eq_getElem (Nat.lt_trans before inside)⟩
    obtain ⟨typeToken, isType⟩ : ∃ token, tokens[index + 1]? = some token :=
      ⟨_, List.getElem?_eq_getElem (Nat.lt_of_le_of_lt before inside)⟩
    have positive := field.span_pos
    have fits := add_span_lt inMemory.tokens (Nat.lt_trans before inside) field
    rw [limit_eq before, drop_eq_cons found]
    simp only [tokenAt_eq found, pure_bind]
    split
    · rename_i isField
      obtain ⟨⟨next, later⟩, passes, reads⟩ :=
        readFields_eq base inside (index + field.span)
      refine ⟨⟨next, by omega⟩, .across before found isField passes, ?_⟩
      simp only [add_eq fits, pure_bind, add_eq (show index + 1 < UInt64.size by omega),
        readComponent_eq inMemory field isType, reads]
      rw [← limit_eq before, ← drop_eq_cons found, List.drop_drop, ← Nat.sub_add_eq,
        Walk.bind_assoc]
      exact completed_bind fun _ _ => completed_map_bind fun _ _ => rfl
    · rename_i another
      exact ⟨⟨index, Nat.le_refl index⟩, .other before found another, rfl⟩
  · rename_i beyond
    have outside := Nat.le_of_not_lt beyond
    rw [Nat.sub_eq_zero_of_le outside]
    exact ⟨⟨index, Nat.le_refl index⟩, .beyond outside, rfl⟩
termination_by stop - index

theorem readContent_eq (field lengthToken dataToken : Token) (position : Nat) :
    readContent source field lengthToken dataToken position =
      check (walkVarData.readVarData source position field lengthToken dataToken) := by
  have bytes := inMemory.small
  rw [readContent, walkVarData.readVarData]
  split
  · refine check_bind fun lengthAt _ => ?_
    rw [readNumber_eq bytes]
    refine check_bind fun length _ => check_bind fun start _ => ?_
    rw [readSlice_eq bytes]
    refine check_bind fun content isContent => ?_
    obtain ⟨room, isLength⟩ := slice_inside isContent
    simp only [add_eq (show start + content.length < UInt64.size by omega), pure_bind]
    rfl
  · rfl

theorem readVarData_eq {stop : Nat} (inside : stop < tokens.length) (index position : Nat) :
    readVarData source tokens index stop position =
      .completed (walkVarData source position (stop - index) (tokens.drop index)) := by
  rw [readVarData, walkVarData.eq_def]
  split
  · rename_i before
    obtain ⟨field, found⟩ : ∃ token, tokens[index]? = some token :=
      ⟨_, List.getElem?_eq_getElem (Nat.lt_trans before inside)⟩
    have positive := field.span_pos
    have fits := add_span_lt inMemory.tokens (Nat.lt_trans before inside) field
    rw [limit_eq before, drop_eq_cons found]
    simp only [tokenAt_eq found, pure_bind]
    split
    · refine constructAt_bind found fits fun range _ _ _ isSpan => ?_
      refine completed_bind fun layout _ => ?_
      rw [readContent_eq inMemory]
      refine completed_bind fun content _ => completed_bind fun _ _ => ?_
      simp only [add_eq (show index + range.length < UInt64.size by omega), pure_bind]
      rw [readVarData_eq inside, isSpan, ← limit_eq before, ← drop_eq_cons found, List.drop_drop,
        ← Nat.sub_add_eq]
    · rfl
  · rename_i beyond
    rw [Nat.sub_eq_zero_of_le (Nat.le_of_not_lt beyond)]
    rfl
termination_by stop - index

theorem readDimensions_eq (group : Token) (dimensions : Dimensions) (position : Nat) :
    readDimensions source group dimensions position =
      check (readGroupSize source group dimensions position) := by
  have bytes := inMemory.small
  rw [readDimensions, readGroupSize]
  have sized : ∀ size : GroupSize,
      (if source.buffer.size - size.start < min (size.count * size.blockLength) lastPosition then
        check (.error (.outOfBounds size.start (min (size.count * size.blockLength) lastPosition)
          source.buffer.size))
      else pure size) =
        check (if source.buffer.size - size.start <
            min (size.count * size.blockLength) lastPosition then
          .error (.outOfBounds size.start (min (size.count * size.blockLength) lastPosition)
            source.buffer.size)
        else .ok size) := by
    intro size
    split
    · rfl
    · rfl
  split
  · refine check_bind fun blockLengthAt _ => ?_
    rw [readNumber_eq bytes]
    refine check_bind fun blockLength _ => check_bind fun numInGroupAt _ => ?_
    rw [readNumber_eq bytes]
    refine check_bind fun numInGroup _ => check_bind fun length _ => ?_
    exact (pure_bind _ _).trans (sized _)
  · exact (pure_bind _ _).trans (sized _)

mutual

/-- The loop over the groups ends at the index behind the section. -/
theorem readGroups_eq {stop : Nat} (inside : stop < tokens.length) (index : Nat) :
    ∃ next : { next : Nat // index ≤ next }, PassesTo .beginGroup tokens stop index next ∧
      ∀ position, readGroups source tokens index stop position =
        .completed (walkGroups source position (stop - index) (tokens.drop index) >>=
          fun reached => Walk.done (reached, next)) := by
  by_cases before : index < stop
  · obtain ⟨group, found⟩ : ∃ token, tokens[index]? = some token :=
      ⟨_, List.getElem?_eq_getElem (Nat.lt_trans before inside)⟩
    have positive := group.span_pos
    have fits := add_span_lt inMemory.tokens (Nat.lt_trans before inside) group
    by_cases isGroup : group.signal = .beginGroup
    · obtain ⟨⟨next, later⟩, passes, reads⟩ := readGroups_eq inside (index + group.span)
      refine ⟨⟨next, by omega⟩, .across before found isGroup passes, fun position => ?_⟩
      rw [readGroups, walkGroups.eq_def, if_pos before, limit_eq before, drop_eq_cons found]
      simp only [tokenAt_eq found, pure_bind, if_pos isGroup, Walk.bind_assoc]
      refine constructAt_bind found fits fun range closed within _ isSpan => ?_
      have size : UInt64.size = 2 ^ 64 := rfl
      have last : index + range.length - 1 < tokens.length := by omega
      simp only [add_eq (show index + range.length < UInt64.size by omega), pure_bind,
        subtract_eq (show 1 ≤ index + range.length by omega)]
      refine completed_bind fun dimensions _ => ?_
      rw [readDimensions_eq inMemory]
      refine completed_bind fun size _ => completed_bind fun _ _ => ?_
      have composite := add_span_lt inMemory.tokens
        (show index + 1 < tokens.length by omega) dimensions.composite
      have limit : index + range.length - 1 - (index + 1 + dimensions.composite.span) =
          range.length - 2 - dimensions.composite.span := by omega
      simp only [add_eq (show index + 1 < UInt64.size by omega), pure_bind, add_eq composite,
        add_eq (show index + range.length - 1 + 1 < UInt64.size by omega)]
      have entries : ∀ entry start,
          bracket (.beginGroup group entry size.count) (.endGroup group entry size.count)
            group.name (readBlock source tokens (index + 1 + dimensions.composite.span)
              (index + range.length - 1) start size.blockLength) =
            .completed (Walk.bracket (.beginGroup group entry size.count)
              (.endGroup group entry size.count) group.name
              (walkBlock source start size.blockLength
                (range.length - 2 - dimensions.composite.span)
                ((tokens.drop (index + 1)).drop dimensions.composite.span))) := by
        intro entry start
        rw [readBlock_eq last, limit, List.drop_drop]
        rfl
      rw [inTurn_completed entries, Walk.iterate_eq_inTurn]
      refine completed_bind fun reached _ => ?_
      -- the index behind the group is the sum along the span only up to an equation
      have rest : ∀ following (_ : following = index + group.span)
          (grows : ∀ next, following ≤ next → index ≤ next),
          (readGroups source tokens following stop reached >>= fun found =>
            pure (found.1, ⟨found.2.1, grows _ found.2.2⟩)) =
          .completed (walkGroups source reached (stop - (index + group.span))
            (tokens.drop (index + group.span)) >>= fun reached =>
              Walk.done (reached, (⟨next, by omega⟩ : { next : Nat // index ≤ next }))) := by
        rintro _ rfl grows
        rw [reads]
        exact completed_map_bind fun _ _ => rfl
      rw [← limit_eq before, ← drop_eq_cons found, List.drop_drop, ← Nat.sub_add_eq]
      exact rest _ (by omega) _
    · refine ⟨⟨index, Nat.le_refl index⟩, .other before found isGroup, fun position => ?_⟩
      rw [readGroups, walkGroups.eq_def, if_pos before, limit_eq before, drop_eq_cons found]
      simp only [tokenAt_eq found, pure_bind, if_neg isGroup]
      rfl
  · have outside := Nat.le_of_not_lt before
    refine ⟨⟨index, Nat.le_refl index⟩, .beyond outside, fun position => ?_⟩
    rw [readGroups, walkGroups.eq_def, if_neg before, Nat.sub_eq_zero_of_le outside]
    rfl
termination_by 2 * (tokens.length - index)

theorem readBlock_eq {stop : Nat} (inside : stop < tokens.length) (index start blockLength : Nat) :
    readBlock source tokens index stop start blockLength =
      .completed (walkBlock source start blockLength (stop - index) (tokens.drop index)) := by
  obtain ⟨⟨groups, isGroups⟩, passesFields, fields⟩ := readFields_eq inMemory start inside index
  obtain ⟨⟨varData, isVarData⟩, passesGroups, reads⟩ :=
    readGroups_eq inside groups
  rw [readBlock, walkBlock, fields]
  refine completed_map_bind fun _ _ => ?_
  rw [PassesTo] at passesFields passesGroups
  rw [passesFields]
  dsimp only
  rw [passesGroups, reads]
  exact completed_map_bind fun reached _ => readVarData_eq inMemory inside _ _
termination_by 2 * (tokens.length - index) + 1

end

end InMemory

end Guarded

/-- A reader in memory meets no trap on any tokens, any bytes, any version, and any position and
block length of 64 bits: with every step guarded the reading is completed, and it is the walk along
the tokens. -/
theorem decode_untrapped (buffer : Buffer) (bytes : buffer.size < 2 ^ 63) (tokens : List Token)
    (addressable : tokens.length < 2 ^ 63) (offset : UInt64) (actingVersion : Int32)
    (blockLength : UInt64) :
    Guarded.decode buffer offset actingVersion blockLength tokens =
      .completed (decode buffer offset.toNat actingVersion blockLength.toNat tokens) := by
  have inMemory : Guarded.InMemory ⟨buffer, actingVersion⟩ tokens := ⟨bytes, addressable⟩
  rw [Guarded.decode, decode, Guarded.readMessage.eq_def, walkMessage.eq_def]
  cases tokens with
  | nil => rfl
  | cons opening following =>
      dsimp only
      cases isLast : following.getLast? with
      | none => rfl
      | some closing =>
          dsimp only
          split
          · have last : following.length < (opening :: following).length := Nat.lt_succ_self _
            simp only [Guarded.subtract_eq (show 1 ≤ (opening :: following).length by simp),
              Guarded.pure_bind]
            rw [List.length_cons, Nat.add_sub_cancel, Guarded.readBlock_eq inMemory last]
            rfl
          · rfl

/-- A message whose spans are wrong: the group takes in the end of the message, and its dimensions
leave the list. -/
def overrunMessage : List Token :=
  [{ signal := .beginMessage, name := "Overrun" },
    { signal := .beginGroup, name := "legs", storedSpan := 6 },
    { signal := .beginComposite, name := "dimensions", encodedLength := 2, storedSpan := 9 },
    { signal := .encoding, name := "blockLength", encoding := .ofType .uint8 },
    { signal := .encoding, name := "numInGroup", offset := 1, encoding := .ofType .uint8 },
    { signal := .endGroup, name := "legs", storedSpan := 6 },
    { signal := .endMessage, name := "Overrun" }]

/-- Two entries of three bytes are passed over, and nothing behind the end is looked at. -/
theorem decode_untrapped_overrun :
    #[3, 2, 0, 0, 0, 0, 0, 0].size < 2 ^ 63 ∧ overrunMessage.length < 2 ^ 63 ∧
      Guarded.decode #[3, 2, 0, 0, 0, 0, 0, 0] 0 0 0 overrunMessage =
        .completed (decode #[3, 2, 0, 0, 0, 0, 0, 0] 0 0 0 overrunMessage) ∧
      (decode #[3, 2, 0, 0, 0, 0, 0, 0] 0 0 0 overrunMessage).outcome.toOption = some 8 :=
  ⟨by decide, by decide,
    decode_untrapped #[3, 2, 0, 0, 0, 0, 0, 0] (by decide) overrunMessage (by decide) 0 0 0,
    by decide +kernel⟩

end WireSchema
