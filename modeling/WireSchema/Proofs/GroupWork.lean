/-
Module: WireSchema.Proofs.GroupWork
Purpose: A few bytes can announce many entries.  A reader is protected against that in two ways.  It
  tells of a group only if the blocks of all its entries have room in the buffer
  (`FoundGroup.room`).  And where the dimensions of groups are as long as the two numbers in them,
  each entry whose block takes bytes begins further on than the one before it, and each group
  further on than the entry around it: their number is bounded by the length of the buffer, whatever
  the bytes say and whether or not the message is read to its end (`decode_work`).
Main exports: Dimensions.Exact, workOf, FoundGroup.room, Spends, decode_work
-/
import WireSchema.Proofs.BufferFaults
import WireSchema.Proofs.EndPosition
import WireSchema.Proofs.Findings

namespace WireSchema

/-! ### Sizes of groups -/

/-- The dimensions of a group are as long as the two numbers in them. -/
def Dimensions.Exact (dimensions : Dimensions) : Prop :=
  dimensions.composite.encodedLength.toNatClampNeg =
    max dimensions.blockLength.reach dimensions.numInGroup.reach

instance (dimensions : Dimensions) : Decidable dimensions.Exact :=
  inferInstanceAs (Decidable (_ = _))

theorem Dimensions.Exact.covered {dimensions : Dimensions} (exact : dimensions.Exact) :
    dimensions.Covered :=
  Nat.le_of_eq exact

variable {source : Source}

/-- All blocks of a group that was found have room in the buffer behind its dimensions. -/
theorem FoundGroup.room (small : source.buffer.size < lastPosition) (found : FoundGroup source) :
    found.size.count * found.size.blockLength ≤ source.buffer.size - found.size.start := by
  obtain ⟨opening, dimensions, position, size, read⟩ := found
  cases isNewer : opening.1.isNewer source.actingVersion with
  | true =>
      rw [readGroupSize_newer isNewer] at read
      cases read
      exact Nat.le_trans (Nat.le_of_eq (Nat.zero_mul 0)) (Nat.zero_le _)
  | false =>
      have room := (readGroupSize_known isNewer read).room
      dsimp only
      omega

/-- The first entry of a group that the sender knew starts behind the start of the group. -/
theorem FoundGroup.forward (small : source.buffer.size < lastPosition) (found : FoundGroup source)
    (known : found.opening.1.isNewer source.actingVersion = false)
    (exact : found.dimensions.dimensions.Exact) : found.position < found.size.start := by
  obtain ⟨blockLength, _, isStart, _⟩ := readGroupSize_known known found.read
  obtain ⟨place, word, _, isWord, _⟩ := blockLength
  have wide := (readUnsigned_inside isWord).1
  have inside := (readGroupSize_inside (Nat.le_of_lt small) known exact.covered found.read).1
  rw [Dimensions.Exact, Token.reach, Token.reach] at exact
  rw [isStart, exact, advance] at inside ⊢
  omega

/-! ### Work -/

/-- Whether a finding is an entry of a group whose blocks take bytes. -/
def Finding.isWork : Finding source → Bool
  | .entry found _ _ => 0 < found.size.blockLength
  | .block _ _ _ | .group _ => false

/-- The number of entries among some findings whose blocks take bytes. -/
def workOf (findings : List (Finding source)) : Nat :=
  findings.countP Finding.isWork

theorem workOf_append (first second : List (Finding source)) :
    workOf (first ++ second) = workOf first + workOf second :=
  List.countP_append

/-- The work of a walk through some groups and variable data has room between the position that it
starts at and the end of the buffer, and if the walk ends well, between its start and its end. -/
structure Spends (source : Source) (heads : List Token) (walk : Walk Nat) (position work : Nat) :
    Prop where
  inside : 0 < work → position + work ≤ source.buffer.size
  reaches : ∀ next, walk.outcome = .ok next → Reaches source True heads position next
  forward : ∀ next, walk.outcome = .ok next → position + work ≤ next

namespace Spends

variable {heads others : List Token} {position : Nat}

/-- A walk through what the sender did not know, or through nothing. -/
theorem still {walk : Walk Nat} (addressable : position ≤ lastPosition)
    (reaches : ∀ next, walk.outcome = .ok next → Reaches source True heads position next) :
    Spends source heads walk position 0 := by
  refine ⟨fun work => absurd work (Nat.lt_irrefl 0), reaches, fun next ends => ?_⟩
  have forward := (reaches next ends).forward
  rwa [Nat.min_eq_left addressable] at forward

/-- A walk that fails. -/
theorem failed {walk : Walk Nat} {problem : ScopedError} (fails : walk.outcome = .error problem) :
    Spends source heads walk position 0 := by
  refine ⟨fun work => absurd work (Nat.lt_irrefl 0), fun next ends => ?_, fun next ends => ?_⟩
  · rw [fails] at ends
    cases ends
  · rw [fails] at ends
    cases ends

theorem bind (small : source.buffer.size ≤ lastPosition) (addressable : position ≤ lastPosition)
    {walk : Walk Nat} {next : Nat → Walk Nat} {findings : List (Finding source)}
    {later : Nat → List (Finding source)}
    (first : Spends source heads walk position (workOf findings))
    (second : ∀ between ≤ lastPosition,
      Spends source others (next between) between (workOf (later between))) :
    Spends source (heads ++ others) (walk >>= next) position
      (workOf (findings ++ walk.behind later)) := by
  obtain ⟨events, outcome⟩ := walk
  rw [workOf_append]
  cases outcome with
  | error problem =>
      exact ⟨first.inside, fun _ ends => (nomatch ends), fun _ ends => (nomatch ends)⟩
  | ok between =>
      have one := first.reaches between rfl
      have passed := first.forward between rfl
      obtain ⟨inside, reaches, forward⟩ :=
        second between (one.addressable trivial small addressable)
      have both : workOf (Walk.behind ⟨events, .ok between⟩ later) = workOf (later between) := rfl
      rw [both]
      refine ⟨fun work => ?_, fun last ends => one.trans (reaches last ends), fun last ends => ?_⟩
      · have firstInside := first.inside
        omega
      · have passedLater := forward last ends
        omega

/-- A walk behind another one that does not move. -/
theorem after {walk : Walk Unit} {next : Walk Nat} {later : List (Finding source)}
    (spends : Spends source heads next position (workOf later)) :
    Spends source heads (walk >>= fun _ => next) position
      (workOf (walk.behind fun _ => later)) := by
  obtain ⟨events, outcome⟩ := walk
  cases outcome with
  | error problem => exact .failed rfl
  | ok result => exact ⟨spends.inside, spends.reaches, spends.forward⟩

/-- A walk through something in which nothing is found. -/
theorem before_still (small : source.buffer.size ≤ lastPosition)
    (addressable : position ≤ lastPosition) {walk : Walk Nat} {next : Nat → Walk Nat}
    {findings : List (Finding source)}
    (first : Spends source heads walk position (workOf findings))
    (second : ∀ between ≤ lastPosition, Spends source others (next between) between 0) :
    Spends source (heads ++ others) (walk >>= next) position (workOf findings) := by
  have nothingLater : ∀ between ≤ lastPosition, Spends source others (next between) between
      (workOf ((fun _ => []) between : List (Finding source))) := second
  have both := first.bind small addressable nothingLater
  rwa [Walk.behind_nothing, List.append_nil] at both

end Spends

/-! ### Variable data and entries -/

theorem VarDataTree.spends (small : source.buffer.size ≤ lastPosition) :
    ∀ (varData : List VarDataTree) {position : Nat}, position ≤ lastPosition →
      Spends source (varData.map (·.opening.1)) (VarDataTree.walkList source position varData)
        position 0
  | [], position, addressable => .still addressable fun next ends => by
      cases ends
      exact .nothing
  | data :: others, position, addressable => .still addressable fun last ends => by
      rw [VarDataTree.walkList] at ends
      obtain ⟨next, isNext, ends⟩ := Walk.ok_of_bind ends
      rw [VarDataTree.walk] at isNext
      obtain ⟨read, isRead, isNext⟩ := Walk.ok_of_bind isNext
      cases isNext
      have one := readVarData_reaches True (Walk.ok_of_check isRead)
      exact one.trans ((VarDataTree.spends small others
        (one.addressable trivial small addressable)).reaches last ends)

/-- Each entry whose block takes bytes is work, besides the work inside it. -/
theorem workOf_entry (found : FoundGroup source) (index start : Nat)
    (others : List (Finding source)) :
    workOf (.entry found index start :: others) =
      workOf others + if 0 < found.size.blockLength then 1 else 0 := by
  simp [workOf, List.countP_cons, Finding.isWork]

/-- The work in the entries of a group from a position on has room between that position and the end
of the buffer, but for the last entry, whose block may begin at the end. -/
theorem FoundGroup.spends_entries (small : source.buffer.size < lastPosition)
    (found : FoundGroup source) {walk : Nat → Walk Nat} {inside : Nat → List (Finding source)}
    {heads : List Token}
    (each : ∀ start, Spends source heads (walk start) (advance start found.size.blockLength)
      (workOf (inside start))) (count : Nat) :
    ∀ index start, start ≤ source.buffer.size →
      ((∀ head ∈ heads, head.isNewer source.actingVersion = true) →
        advance start (count * found.size.blockLength) ≤ source.buffer.size) →
      let work := workOf (found.entries walk inside index count start)
      start + work ≤ source.buffer.size + 1 ∧
        ∀ next, (Walk.inTurn (fun index start =>
            Walk.bracket (.beginGroup found.opening index found.size.count)
              (.endGroup found.opening index found.size.count) found.opening.1.name (walk start))
            index count start).outcome = .ok next →
          start + work ≤ next ∧ next ≤ source.buffer.size := by
  induction count with
  | zero =>
      intro index start startInside _ work
      refine ⟨Nat.le_succ_of_le startInside, fun next ends => ?_⟩
      cases ends
      exact ⟨Nat.le_refl _, startInside⟩
  | succ count ih =>
      intro index start startInside room work
      obtain ⟨insideRoom, reaches, forward⟩ := each start
      have isWork : work = workOf (inside start) +
          workOf ((walk start).behind (found.entries walk inside (index + 1) count)) +
            if 0 < found.size.blockLength then 1 else 0 := by
        rw [← workOf_append]
        exact workOf_entry found index start _
      rw [Walk.inTurn]
      rw [advance] at insideRoom
      rcases walked : walk start with ⟨events, outcome⟩
      rw [walked] at isWork reaches forward
      cases outcome with
      | error problem =>
          have nothingBehind : workOf (Walk.behind ⟨events, .error problem⟩
              (found.entries walk inside (index + 1) count)) = 0 := rfl
          refine ⟨?_, fun _ ends => by cases ends⟩
          split at isWork <;> omega
      | ok between =>
          obtain ⟨betweenInside, roomLeft⟩ := (reaches between rfl).entry trivial room
          obtain ⟨laterInside, laterForward⟩ := ih (index + 1) between betweenInside roomLeft
          have passed := forward between rfl
          have behind : workOf (Walk.behind ⟨events, .ok between⟩
              (found.entries walk inside (index + 1) count)) =
                workOf (found.entries walk inside (index + 1) count between) := rfl
          rw [advance] at passed
          have step : start + workOf (inside start) +
              (if 0 < found.size.blockLength then 1 else 0) ≤ between := by
            split <;> omega
          refine ⟨by omega, fun next ends => ?_⟩
          obtain ⟨laterPassed, nextInside⟩ := laterForward next ends
          exact ⟨by omega, nextInside⟩

/-! ### Groups and blocks -/

mutual

/-- The work in a group has room between its start and the end of the buffer. -/
theorem GroupTree.spends (small : source.buffer.size < lastPosition) : ∀ tree : GroupTree,
    (∀ dimensions ∈ tree.allDimensions, dimensions.dimensions.Exact) → ∀ {position : Nat},
      position ≤ lastPosition →
      Spends source [tree.opening.1] (tree.walk source position) position
        (workOf (tree.findings source position))
  | .group opening dimensions body closing, exact, position, addressable => by
      rw [GroupTree.allDimensions, List.forall_mem_cons] at exact
      rw [GroupTree.opening]
      cases read : readGroupSize source opening dimensions.dimensions position with
      | error problem =>
          rw [GroupTree.findings_of_error read, GroupTree.walk, read]
          exact .failed rfl
      | ok size =>
          let found : FoundGroup source := ⟨opening, dimensions, position, size, read⟩
          rw [GroupTree.findings_of_ok read, GroupTree.walk, read, Walk.check_ok_bind]
          cases isNewer : opening.1.isNewer source.actingVersion with
          | true =>
              rw [readGroupSize_newer isNewer] at read
              cases read
              exact .still addressable fun next ends => by
                cases ends
                exact .newer isNewer
          | false =>
              obtain ⟨startInside, room⟩ :=
                readGroupSize_inside (Nat.le_of_lt small) isNewer exact.1.covered read
              have further := found.forward small isNewer exact.1
              obtain ⟨inside, forward⟩ := found.spends_entries small
                (fun start => body.spends small exact.2 start size.blockLength)
                size.count 0 size.start startInside fun _ => room
              change position < size.start at further
              change Spends source _ _ position (workOf (found.entries _ _ 0 size.count size.start))
              refine ⟨fun _ => by omega, fun next ends => ?_, fun next ends => ?_⟩
              · obtain ⟨passed, nextInside⟩ := forward next ends
                exact .known isNewer (by omega) fun _ => nextInside
              · have passed := (forward next ends).1
                omega

theorem GroupTree.list_spends (small : source.buffer.size < lastPosition) :
    ∀ groups : List GroupTree,
      (∀ dimensions ∈ GroupTree.listAllDimensions groups, dimensions.dimensions.Exact) →
      ∀ {position : Nat}, position ≤ lastPosition →
      Spends source (groups.map (·.opening.1)) (GroupTree.walkList source position groups) position
        (workOf (GroupTree.listFindings source position groups))
  | [], _, position, addressable => by
      rw [GroupTree.walkList, GroupTree.listFindings]
      exact .still addressable fun next ends => by
        cases ends
        exact .nothing
  | group :: groups, exact, position, addressable => by
      rw [GroupTree.listAllDimensions, List.forall_mem_append] at exact
      rw [GroupTree.walkList, GroupTree.listFindings]
      exact (group.spends small exact.1 addressable).bind (Nat.le_of_lt small) addressable
        fun next nextAddressable =>
          GroupTree.list_spends small groups exact.2 nextAddressable

/-- The work in the groups of a block has room between the end of the block and the end of the
buffer. -/
theorem BlockTree.spends (small : source.buffer.size < lastPosition) : ∀ body : BlockTree,
    (∀ dimensions ∈ body.allDimensions, dimensions.dimensions.Exact) → ∀ start blockLength,
      Spends source body.heads (body.walk source start blockLength) (advance start blockLength)
        (workOf (body.findings source start blockLength))
  | .block fields groups varData, exact, start, blockLength => by
      rw [BlockTree.allDimensions] at exact
      rw [BlockTree.walk, BlockTree.findings, BlockTree.heads]
      have groupsSpend :=
        GroupTree.list_spends small groups exact (advance_le_lastPosition start blockLength)
      exact (groupsSpend.before_still (Nat.le_of_lt small)
        (advance_le_lastPosition start blockLength) fun next addressable =>
          VarDataTree.spends (Nat.le_of_lt small) varData addressable).after

end

/-! ### The work of a message -/

/-- What a reader of a stored message is told about fields, groups and entries is what it is told
about its findings.  Where the dimensions of all groups are as long as the two numbers in them,
there are no more entries of groups with blocks that take bytes than the buffer has bytes; and no
group or entry is found for whose blocks there is no room behind the dimensions of the group.  The
message may be read to its end or not. -/
theorem decode_work {draft extended : SchemaDraft} {messageId : Int64} {message : MessageTree}
    (accepted : draft.addMessage messageId message.tokens = .ok extended)
    (countable : message.tokens.length < spanLimit)
    (exact : ∀ dimensions ∈ message.reduced.measured.body.allDimensions,
      dimensions.dimensions.Exact) :
    ∃ stored, extended.messages.get? messageId = some stored ∧
      ∀ (buffer : Buffer) (offset : Nat) (actingVersion : Int32) (blockLength : Nat),
        buffer.size < lastPosition →
        let findings := message.reduced.measured.findings ⟨buffer, actingVersion⟩ offset blockLength
        (decode buffer offset actingVersion blockLength stored).events.filter Event.isOfFinding =
            findings.flatMap Finding.events ∧
          workOf findings ≤ buffer.size ∧
          ∀ found,
            .group found ∈ findings ∨ (∃ index start, .entry found index start ∈ findings) →
            found.size.count * found.size.blockLength ≤ buffer.size - found.size.start := by
  obtain ⟨_, isStored⟩ := SchemaDraft.addMessage_tokens accepted
  refine ⟨_, isStored, fun buffer offset actingVersion blockLength small => ?_⟩
  have smallSource : (Source.mk buffer actingVersion).buffer.size < lastPosition := small
  have told := SchemaDraft.told_findings accepted countable buffer offset actingVersion blockLength
  refine ⟨told, ?_, fun found _ => found.room smallSource⟩
  have inside := (message.reduced.measured.body.spends smallSource exact offset blockLength).inside
  rw [MessageTree.findings]
  dsimp only at inside
  omega

/-- An order of an older version with two legs, whose blocks take two bytes each. -/
theorem decode_work_order :
    let tree := orderMessage.reduced.measured
    let buffer : Buffer := #[1, 0, 0, 0, 0, 2, 0, 2, 0, 8, 0, 9, 0]
    let findings := tree.findings ⟨buffer, 0⟩ 0 5
    (∀ dimensions ∈ tree.body.allDimensions, dimensions.dimensions.Exact) ∧
      buffer.size < lastPosition ∧ workOf findings = 2 ∧
      ∃ stored, storedAlone orderMessage.tokens = some stored ∧
        (decode buffer 0 0 5 stored).events.filter Event.isOfFinding =
          findings.flatMap Finding.events ∧
        workOf findings ≤ buffer.size ∧
        ∀ found,
          .group found ∈ findings ∨ (∃ index start, .entry found index start ∈ findings) →
          found.size.count * found.size.blockLength ≤ buffer.size - found.size.start := by
  intro tree buffer findings
  have exact : ∀ dimensions ∈ tree.body.allDimensions, dimensions.dimensions.Exact := by
    decide +kernel
  have small : buffer.size < lastPosition := by decide
  obtain ⟨extended, accepted⟩ := orderMessage_accepted
  obtain ⟨stored, isStored, all⟩ := decode_work accepted (by decide) exact
  refine ⟨exact, small, by decide +kernel, stored, ?_, all buffer 0 0 5 small⟩
  rw [storedAlone, accepted]
  exact isStored

end WireSchema
