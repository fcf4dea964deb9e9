/-
Module: WireSchema.Proofs.ConfinedWalks
Purpose: Whatever the tokens are, a walk behind a block either stays where the block ends, wherever
  that is, or it has read something, which lies inside the buffer, and then ends not far behind the
  buffer: at most by the length that the schema gives to the dimensions of a group.  So a message
  ends where its root block does or not far behind the buffer (`decode_confined`).
Main exports: Confined, EndsBefore, decode_confined
-/
import WireSchema.Proofs.EndPosition

namespace WireSchema

/-!
The two cases are those of the tokens and of the version of the sender, not of the position that a
walk starts from.  That is what makes them hold for the entries of a group as well.
-/

/-! ### Walks from a position to another -/

/-- Some walks lead from one position to another.  Either they never move, or they never end behind
a bound, wherever they start. -/
def Confined (bound : Nat) (leads : Nat → Nat → Prop) : Prop :=
  (∀ position next, leads position next → next = position) ∨
    ∀ position next, leads position next → next ≤ bound

namespace Confined

variable {bound : Nat} {leads first second : Nat → Nat → Prop}

/-- One walk behind another one. -/
theorem trans (one : Confined bound first) (other : Confined bound second)
    (through : ∀ position last, leads position last →
      ∃ between, first position between ∧ second between last) : Confined bound leads := by
  rcases other with still | inside
  · rcases one with alsoStill | before
    · refine .inl fun position last isLast => ?_
      obtain ⟨between, isBetween, isBehind⟩ := through position last isLast
      exact (still between last isBehind).trans (alsoStill position between isBetween)
    · refine .inr fun position last isLast => ?_
      obtain ⟨between, isBetween, isBehind⟩ := through position last isLast
      rw [still between last isBehind]
      exact before position between isBetween
  · refine .inr fun position last isLast => ?_
    obtain ⟨between, _, isBehind⟩ := through position last isLast
    exact inside between last isBehind

theorem of_done {walk : Nat → Walk Nat} (isDone : ∀ position, walk position = Walk.done position) :
    Confined bound fun position next => (walk position).outcome = .ok next := by
  refine .inl fun position next (succeeds : (walk position).outcome = .ok next) => ?_
  rw [isDone position] at succeeds
  cases succeeds
  rfl

theorem of_failed (fails : ∀ position next, ¬ leads position next) : Confined bound leads :=
  .inl fun position next isLed => absurd isLed (fails position next)

end Confined

/-! ### The entries of a group -/

/-- Entries that all end before a bound. -/
theorem inTurn_le {bound : Nat} {step : Nat → Nat → Walk Nat}
    (each : ∀ index start next, (step index start).outcome = .ok next → next ≤ bound)
    (count : Nat) : ∀ {index start next : Nat}, start ≤ bound →
      (Walk.inTurn step index count start).outcome = .ok next → next ≤ bound := by
  induction count with
  | zero =>
      intro index start next inside succeeds
      cases succeeds
      exact inside
  | succ count ih =>
      intro index start next _ succeeds
      obtain ⟨between, isBetween, succeeds⟩ := Walk.ok_of_bind succeeds
      exact ih (each index start between isBetween) succeeds

/-- Entries of which nothing is read behind their blocks.  They end where all their blocks do. -/
theorem inTurn_blocks {bound blockLength : Nat} {step : Nat → Nat → Walk Nat}
    (each : ∀ index start next, (step index start).outcome = .ok next →
      next = advance start blockLength) (count : Nat) :
    ∀ {index start next : Nat}, start ≤ bound → advance start (count * blockLength) ≤ bound →
      (Walk.inTurn step index count start).outcome = .ok next → next ≤ bound := by
  induction count with
  | zero =>
      intro index start next inside _ succeeds
      cases succeeds
      exact inside
  | succ count ih =>
      intro index start next _ room succeeds
      obtain ⟨between, isBetween, succeeds⟩ := Walk.ok_of_bind succeeds
      rw [Nat.succ_mul, Nat.add_comm, ← advance_advance] at room
      have blockInside : advance start blockLength ≤ bound :=
        Nat.le_trans (le_advance (advance_le_lastPosition _ _) _) room
      rw [each index start between isBetween] at succeeds
      exact ih blockInside room succeeds

/-! ### The walks of a message -/

variable {source : Source} {bound : Nat}

/-- The buffer has an end, and a bound lies so far behind it that the dimensions of a group that
start in the buffer end before the bound. -/
structure EndsBefore (buffer : Buffer) (bound : Nat) : Prop where
  small : buffer.size ≤ lastPosition
  far : buffer.size + Int32.size ≤ bound

theorem readVarData_confined (ends : EndsBefore source.buffer bound) (field : Token) :
    Confined bound fun position next => ∃ lengthToken dataToken content,
      walkVarData.readVarData source position field lengthToken dataToken =
        .ok (content, next) := by
  have far := ends.far
  by_cases known : field.version ≤ source.actingVersion
  · refine .inr fun position next ⟨lengthToken, dataToken, content, isRead⟩ => ?_
    rw [walkVarData.readVarData, if_pos known] at isRead
    obtain ⟨lengthAt, _, isRead⟩ := ok_of_bind isRead
    obtain ⟨length, _, isRead⟩ := ok_of_bind isRead
    obtain ⟨start, _, isRead⟩ := ok_of_bind isRead
    obtain ⟨found, isFound, isRead⟩ := ok_of_bind isRead
    cases isRead
    obtain ⟨inside, sameLength⟩ := slice_inside isFound
    omega
  · refine .inl fun position next ⟨lengthToken, dataToken, content, isRead⟩ => ?_
    rw [walkVarData.readVarData, if_neg known] at isRead
    cases isRead
    rfl

theorem walkVarData_confined (ends : EndsBefore source.buffer bound) (limit : Nat)
    (tokens : List Token) : Confined bound fun position next =>
      (walkVarData source position limit tokens).outcome = .ok next := by
  cases limit with
  | zero => exact .of_done fun position => by rw [walkVarData.eq_def]
  | succ limit =>
      cases tokens with
      | nil => exact .of_done fun position => by rw [walkVarData.eq_def]
      | cons field following =>
          by_cases isField : field.signal = .beginVarData
          · refine (readVarData_confined ends field).trans (walkVarData_confined ends
              (limit + 1 - field.span) ((field :: following).drop field.span))
              fun position last succeeds => ?_
            rw [walkVarData.eq_def] at succeeds
            simp only [if_pos isField] at succeeds
            obtain ⟨range, _, succeeds⟩ := Walk.ok_of_bind succeeds
            obtain ⟨layout, _, succeeds⟩ := Walk.ok_of_bind succeeds
            obtain ⟨read, isRead, succeeds⟩ := Walk.ok_of_bind succeeds
            obtain ⟨_, _, succeeds⟩ := Walk.ok_of_bind succeeds
            exact ⟨read.2, ⟨layout.1, layout.2, read.1, Walk.ok_of_check isRead⟩, succeeds⟩
          · refine .of_done fun position => ?_
            rw [walkVarData.eq_def]
            exact if_neg isField
termination_by tokens.length
decreasing_by
  have positive := field.span_pos
  simp only [List.length_drop, List.length_cons]
  omega

/-- The first entry of a group that the sender knew starts not far behind the buffer, and all its
blocks have room from there. -/
theorem readGroupSize_le (ends : EndsBefore source.buffer bound) {group : Token}
    {dimensions : Dimensions} {position : Nat} {size : GroupSize}
    (known : group.version ≤ source.actingVersion)
    (read : readGroupSize source group dimensions position = .ok size) :
    size.start ≤ bound ∧ advance size.start (size.count * size.blockLength) ≤ bound := by
  obtain ⟨blockLength, _, isStart, room⟩ := readGroupSize_known (not_newer_iff.mpr known) read
  have inside := blockLength.inside ends.small
  have far := ends.far
  have short : dimensions.composite.encodedLength.toNatClampNeg < Int32.size :=
    Nat.lt_trans (Int32.toNatClampNeg_lt _) (by decide)
  have start : size.start ≤ bound := by
    rw [isStart, advance]
    omega
  refine ⟨start, ?_⟩
  rw [advance]
  omega

/-- The entries of one group, given how far what follows their blocks may get. -/
theorem entries_confined (ends : EndsBefore source.buffer bound) (group : Token)
    (dimensions : Dimensions) {leads : Nat → Nat → Prop} (each : Confined bound leads) :
    Confined bound fun position next =>
      ∃ size, ∃ step : Nat → Nat → Walk Nat,
        readGroupSize source group dimensions position = .ok size ∧
          (∀ index start last, (step index start).outcome = .ok last →
            leads (advance start size.blockLength) last) ∧
          (Walk.inTurn step 0 size.count size.start).outcome = .ok next := by
  by_cases known : group.version ≤ source.actingVersion
  · refine .inr fun position next ⟨size, step, isSize, through, succeeds⟩ => ?_
    obtain ⟨start, room⟩ := readGroupSize_le ends known isSize
    rcases each with stays | inside
    · exact inTurn_blocks (fun index first last isLast =>
        stays _ last (through index first last isLast)) size.count start room succeeds
    · exact inTurn_le (fun index first last isLast =>
        inside _ last (through index first last isLast)) size.count start succeeds
  · refine .inl fun position next ⟨size, step, isSize, _, succeeds⟩ => ?_
    have newer : group.isNewer source.actingVersion = true := by
      rw [← Bool.not_eq_false, not_newer_iff]
      exact known
    rw [readGroupSize_newer newer] at isSize
    cases isSize
    cases succeeds
    rfl

mutual

theorem walkGroups_confined (ends : EndsBefore source.buffer bound) :
    ∀ (limit : Nat) (tokens : List Token), Confined bound fun position next =>
      (walkGroups source position limit tokens).outcome = .ok next
  | 0, tokens => .of_done fun position => by rw [walkGroups.eq_def]
  | limit + 1, [] => .of_done fun position => by rw [walkGroups.eq_def]
  | limit + 1, group :: following => by
      by_cases isGroup : group.signal = .beginGroup
      · have unfolded := fun position => walkGroups.eq_def source position (limit + 1)
          (group :: following)
        simp only [if_pos isGroup] at unfolded
        cases isRange : construct group following with
        | error problem =>
            refine .of_failed fun position next succeeds => ?_
            rw [unfolded, isRange] at succeeds
            cases succeeds
        | ok range =>
            cases isDimensions : dimensionsOf group range with
            | error problem =>
                refine .of_failed fun position next succeeds => ?_
                rw [unfolded, isRange, Walk.check_ok_bind, isDimensions] at succeeds
                cases succeeds
            | ok dimensions =>
                have blocks := walkBlock_confined ends
                  (range.length - 2 - dimensions.composite.span)
                  (following.drop dimensions.composite.span)
                refine (entries_confined ends group dimensions blocks).trans
                  (walkGroups_confined ends (limit + 1 - group.span)
                    ((group :: following).drop group.span)) fun position last succeeds => ?_
                rw [unfolded, isRange, Walk.check_ok_bind, isDimensions,
                  Walk.check_ok_bind] at succeeds
                obtain ⟨size, isSize, succeeds⟩ := Walk.ok_of_bind succeeds
                obtain ⟨_, _, succeeds⟩ := Walk.ok_of_bind succeeds
                obtain ⟨between, isBetween, succeeds⟩ := Walk.ok_of_bind succeeds
                rw [Walk.iterate_eq_inTurn] at isBetween
                refine ⟨between, ⟨size, _, Walk.ok_of_check isSize, ?_, isBetween⟩, succeeds⟩
                exact fun index start next isNext =>
                  ⟨start, size.blockLength, rfl, Walk.ok_of_bracket isNext⟩
      · refine .of_done fun position => ?_
        rw [walkGroups.eq_def]
        exact if_neg isGroup
termination_by _ tokens => 2 * tokens.length
decreasing_by
  · simp only [List.length_drop, List.length_cons]
    omega
  · have positive := group.span_pos
    simp only [List.length_drop, List.length_cons]
    omega

/-- What follows a block, wherever the block ends. -/
theorem walkBlock_confined (ends : EndsBefore source.buffer bound) (limit : Nat)
    (tokens : List Token) : Confined bound fun position next => ∃ start blockLength,
      position = advance start blockLength ∧
        (walkBlock source start blockLength limit tokens).outcome = .ok next := by
  let groups := passSection .beginField limit tokens
  let varData := passSection .beginGroup groups.1 groups.2
  refine (walkGroups_confined ends groups.1 groups.2).trans
    (walkVarData_confined ends varData.1 varData.2)
    fun position last ⟨start, blockLength, isPosition, succeeds⟩ => ?_
  rw [walkBlock.eq_def] at succeeds
  obtain ⟨_, _, succeeds⟩ := Walk.ok_of_bind succeeds
  obtain ⟨between, isBetween, succeeds⟩ := Walk.ok_of_bind succeeds
  exact ⟨between, isPosition ▸ isBetween, succeeds⟩
termination_by 2 * tokens.length + 1
decreasing_by
  have shorter := passSection_length_le .beginField limit tokens
  omega

end

/-- A message ends where its root block does, or else not far behind the buffer. -/
theorem decode_confined (ends : EndsBefore source.buffer bound)
    {offset blockLength position : Nat} {tokens : List Token}
    (succeeds : (decode source.buffer offset source.actingVersion blockLength tokens).outcome =
      .ok position) : position = advance offset blockLength ∨ position ≤ bound := by
  rw [decode, walkMessage.eq_def] at succeeds
  cases tokens with
  | nil => cases succeeds
  | cons opening following =>
      simp only at succeeds
      split at succeeds
      · cases succeeds
      · split at succeeds
        · have isBlock := Walk.ok_of_bracket succeeds
          rcases walkBlock_confined ends (following.length - 1) following with stays | inside
          · exact .inl (stays _ position ⟨offset, blockLength, rfl, isBlock⟩)
          · exact .inr (inside _ position ⟨offset, blockLength, rfl, isBlock⟩)
        · cases succeeds

end WireSchema
