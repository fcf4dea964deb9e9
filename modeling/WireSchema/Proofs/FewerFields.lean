/-
Module: WireSchema.Proofs.FewerFields
Purpose: A consumer may lack some fields of the schema that a message was written with.  Which ones
  does not matter, nor how deep in groups they are: fields move no position, and the groups and the
  variable data are found behind the block whose length the sender gave.  So where the whole message
  can be read, the message without these fields can, to the same end and with the same events but
  for theirs (`decode_keeping`).
Main exports: FieldSet, MessageTree.keeping, MessageTree.walkHearing, decode_keeping
-/
import WireSchema.Proofs.NestedTokens
import WireSchema.Proofs.OlderDecoding

namespace WireSchema

/-!
A field that is left out cannot fail any more.  What is shown therefore goes in one direction only.
-/

/-! ### Leaving fields out -/

/-- A choice of fields by their places.  The place of a field lists the indices of the groups around
it, the outermost first, and then its own index among the fields of its block. -/
abbrev FieldSet := List Nat → Bool

namespace FieldSet

/-- Every field. -/
def all : FieldSet :=
  fun _ => true

/-- The fields inside the group of an index, their places counted from there. -/
def inside (chosen : FieldSet) (index : Nat) : FieldSet :=
  fun place => chosen (index :: place)

end FieldSet

/-- The fields of a block that are kept, the first of them at an index. -/
def FieldTree.listKeeping (kept : FieldSet) (index : Nat) : List FieldTree → List FieldTree
  | [] => []
  | field :: fields =>
    if kept [index] then field :: FieldTree.listKeeping kept (index + 1) fields
    else FieldTree.listKeeping kept (index + 1) fields

mutual

/-- The group with the fields that are kept. -/
def GroupTree.keeping (kept : FieldSet) : GroupTree → GroupTree
  | .group opening dimensions body closing =>
    .group opening dimensions (body.keeping kept) closing

/-- Groups with the fields that are kept, the first group at an index. -/
def GroupTree.listKeeping (kept : FieldSet) (index : Nat) : List GroupTree → List GroupTree
  | [] => []
  | group :: groups =>
    group.keeping (kept.inside index) :: GroupTree.listKeeping kept (index + 1) groups

/-- The body with the fields that are kept. -/
def BlockTree.keeping (kept : FieldSet) : BlockTree → BlockTree
  | .block fields groups varData =>
    .block (FieldTree.listKeeping kept 0 fields) (GroupTree.listKeeping kept 0 groups) varData

end

/-- The message with the fields that are kept. -/
def MessageTree.keeping (kept : FieldSet) (tree : MessageTree) : MessageTree :=
  { tree with body := tree.body.keeping kept }

/-! ### Hearing of some fields only -/

/-- The walk without its events. -/
def Walk.muted {α : Type} (walk : Walk α) : Walk α :=
  ⟨[], walk.outcome⟩

variable (source : Source)

/-- Read a field, with its events or without. -/
def FieldTree.walkHeard (isHeard : Bool) (base : Nat) (tree : FieldTree) : Walk Unit :=
  if isHeard then tree.walk source base else (tree.walk source base).muted

/-- Read the fields of a block, the first of them at an index, with the events of some of them. -/
def FieldTree.walkListHearing (heard : FieldSet) (base index : Nat) : List FieldTree → Walk Unit
  | [] => Walk.done ()
  | field :: fields => do
    field.walkHeard source (heard [index]) base
    FieldTree.walkListHearing heard base (index + 1) fields

mutual

/-- Read a group with the events of some of its fields. -/
def GroupTree.walkHearing (heard : FieldSet) (position : Nat) : GroupTree → Walk Nat
  | .group opening dimensions body _ => do
    let size ← Walk.check (readGroupSize source opening dimensions.dimensions position)
    Walk.emit (.groupHeader opening size.count)
    Walk.inTurn (fun index start =>
      Walk.bracket (.beginGroup opening index size.count) (.endGroup opening index size.count)
        opening.1.name (body.walkHearing heard start size.blockLength)) 0 size.count size.start

/-- Read groups, the first of them at an index, with the events of some of their fields. -/
def GroupTree.walkListHearing (heard : FieldSet) (position index : Nat) :
    List GroupTree → Walk Nat
  | [] => Walk.done position
  | group :: groups => do
    let next ← group.walkHearing (heard.inside index) position
    GroupTree.walkListHearing heard next (index + 1) groups

/-- Read a block and what follows it with the events of some of its fields. -/
def BlockTree.walkHearing (heard : FieldSet) (start blockLength : Nat) : BlockTree → Walk Nat
  | .block fields groups varData => do
    FieldTree.walkListHearing source heard start 0 fields
    let position ← GroupTree.walkListHearing heard (advance start blockLength) 0 groups
    VarDataTree.walkList source position varData

end

/-- Read a message with the events of some of its fields. -/
def MessageTree.walkHearing (heard : FieldSet) (offset blockLength : Nat) (tree : MessageTree) :
    Walk Nat :=
  Walk.bracket (.beginMessage tree.opening) (.endMessage tree.closing) tree.opening.1.name
    (tree.body.walkHearing source heard offset blockLength)

/-! ### Hearing of every field -/

theorem FieldTree.walkListHearing_all (base : Nat) : ∀ (fields : List FieldTree) (index : Nat),
    FieldTree.walkListHearing source .all base index fields =
      FieldTree.walkList source base fields
  | [], _ => rfl
  | field :: fields, index => by
      rw [FieldTree.walkListHearing, FieldTree.walkList,
        FieldTree.walkListHearing_all base fields (index + 1)]
      rfl

mutual

theorem GroupTree.walkHearing_all : ∀ (tree : GroupTree) (position : Nat),
    tree.walkHearing source .all position = tree.walk source position
  | .group opening dimensions body closing, position => by
      have entry := body.walkHearing_all
      rw [GroupTree.walkHearing, GroupTree.walk]
      simp only [entry]

theorem GroupTree.walkListHearing_all : ∀ (groups : List GroupTree) (position index : Nat),
    GroupTree.walkListHearing source .all position index groups =
      GroupTree.walkList source position groups
  | [], position, index => by
      rw [GroupTree.walkListHearing, GroupTree.walkList]
  | first :: others, position, index => by
      have remaining := GroupTree.walkListHearing_all others
      rw [GroupTree.walkListHearing, GroupTree.walkList,
        show FieldSet.all.inside index = .all from rfl, first.walkHearing_all]
      simp only [remaining]

theorem BlockTree.walkHearing_all : ∀ (body : BlockTree) (start blockLength : Nat),
    body.walkHearing source .all start blockLength = body.walk source start blockLength
  | .block fields groups varData, start, blockLength => by
      rw [BlockTree.walkHearing, BlockTree.walk, FieldTree.walkListHearing_all,
        GroupTree.walkListHearing_all groups]

end

theorem MessageTree.walkHearing_all (tree : MessageTree) (offset blockLength : Nat) :
    tree.walkHearing source .all offset blockLength = tree.walk source offset blockLength := by
  rw [MessageTree.walkHearing, MessageTree.walk, BlockTree.walkHearing_all]

/-! ### The same outcome -/

theorem FieldTree.omits_heard (isHeard : Bool) (base : Nat) (tree : FieldTree) :
    Walk.Omits (tree.walkHeard source isHeard base) (tree.walk source base) := by
  cases isHeard with
  | true => exact .refl _
  | false => exact ⟨rfl, List.nil_sublist _⟩

theorem FieldTree.omits_hearing (heard : FieldSet) (base : Nat) :
    ∀ (fields : List FieldTree) (index : Nat),
      Walk.Omits (FieldTree.walkListHearing source heard base index fields)
        (FieldTree.walkList source base fields)
  | [], _ => .refl _
  | field :: fields, index => by
      rw [FieldTree.walkListHearing, FieldTree.walkList]
      exact (field.omits_heard source (heard [index]) base).bind fun _ =>
        FieldTree.omits_hearing heard base fields (index + 1)

mutual

theorem GroupTree.omits_hearing : ∀ (tree : GroupTree) (heard : FieldSet) (position : Nat),
    Walk.Omits (tree.walkHearing source heard position) (tree.walk source position)
  | .group opening dimensions body closing, heard, position => by
      rw [GroupTree.walkHearing, GroupTree.walk]
      refine (Walk.Omits.refl _).bind fun size => (Walk.Omits.refl _).bind fun _ =>
        .inTurn (fun index start => ?_) _ _ _
      exact (body.omits_hearing heard start size.blockLength).bracket _ _ _

theorem GroupTree.listOmits_hearing : ∀ (groups : List GroupTree) (heard : FieldSet)
    (position index : Nat),
      Walk.Omits (GroupTree.walkListHearing source heard position index groups)
        (GroupTree.walkList source position groups)
  | [], heard, position, index => by
      rw [GroupTree.walkListHearing, GroupTree.walkList]
      exact .refl _
  | first :: others, heard, position, index => by
      rw [GroupTree.walkListHearing, GroupTree.walkList]
      exact (first.omits_hearing (heard.inside index) position).bind fun next =>
        GroupTree.listOmits_hearing others heard next (index + 1)

theorem BlockTree.omits_hearing : ∀ (body : BlockTree) (heard : FieldSet)
    (start blockLength : Nat),
      Walk.Omits (body.walkHearing source heard start blockLength)
        (body.walk source start blockLength)
  | .block fields groups varData, heard, start, blockLength => by
      rw [BlockTree.walkHearing, BlockTree.walk]
      exact (FieldTree.omits_hearing source heard start fields 0).bind fun _ =>
        (GroupTree.listOmits_hearing groups heard _ 0).bind fun _ => .refl _

end

/-- Whatever is heard of the fields of a message, they are all read. -/
theorem MessageTree.omits_hearing (tree : MessageTree) (heard : FieldSet)
    (offset blockLength : Nat) :
    Walk.Omits (tree.walkHearing source heard offset blockLength)
      (tree.walk source offset blockLength) :=
  (tree.body.omits_hearing source heard offset blockLength).bracket _ _ _

/-! ### Reading the kept fields -/

/-- A walk whose events are not heard is as good as none where it ends well. -/
theorem Walk.follows_muted {α : Type} {skipped : Walk Unit} {walk full : Walk α}
    (behind : Walk.Follows walk full) :
    Walk.Follows walk (skipped.muted >>= fun _ => full) := by
  obtain ⟨events, outcome⟩ := skipped
  intro result succeeds
  cases outcome with
  | error problem => cases succeeds
  | ok done => exact behind result succeeds

/-- The fields that are kept are read as they were among the others. -/
theorem FieldTree.follows_keeping (kept : FieldSet) (base : Nat) :
    ∀ (fields : List FieldTree) (index : Nat),
      Walk.Follows
        (FieldTree.walkList source base
          ((FieldTree.listKeeping kept index (fields.map FieldTree.measured)).map
            FieldTree.measured))
        (FieldTree.walkListHearing source kept base index (fields.map FieldTree.measured))
  | [], _ => .refl _
  | field :: fields, index => by
      have remaining := FieldTree.follows_keeping kept base fields (index + 1)
      rw [List.map_cons, FieldTree.listKeeping, FieldTree.walkListHearing]
      cases kept [index] with
      | true =>
          simp only [if_true, List.map_cons, field.measured_measured]
          exact (Walk.Follows.refl _).bind fun _ => remaining
      | false =>
          simp only [Bool.false_eq_true, if_false]
          exact Walk.follows_muted remaining

mutual

theorem GroupTree.follows_keeping : ∀ (tree : GroupTree) (kept : FieldSet) (position : Nat),
    Walk.Follows
      (((tree.measured.keeping kept).measured.walk source position).mapEvents Event.unspanned)
      ((tree.measured.walkHearing source kept position).mapEvents Event.unspanned)
  | .group opening dimensions body closing, kept, position => by
      rw [GroupTree.measured, GroupTree.keeping, GroupTree.measured, GroupTree.walk,
        GroupTree.walkHearing]
      simp only [Walk.mapEvents_bind, Walk.mapEvents_inTurn, Walk.mapEvents_bracket]
      refine (Walk.Follows.refl _).bind fun size => (Walk.Follows.refl _).bind fun _ =>
        .inTurn (fun index start => ?_) _ _ _
      exact (body.follows_keeping kept start size.blockLength).bracket _ _ _

theorem GroupTree.listFollows_keeping : ∀ (groups : List GroupTree) (kept : FieldSet)
    (position index : Nat),
      Walk.Follows
        ((GroupTree.walkList source position (GroupTree.measuredList
          (GroupTree.listKeeping kept index (GroupTree.measuredList groups)))).mapEvents
            Event.unspanned)
        ((GroupTree.walkListHearing source kept position index
          (GroupTree.measuredList groups)).mapEvents Event.unspanned)
  | [], kept, position, index => by
      rw [GroupTree.measuredList, GroupTree.listKeeping, GroupTree.measuredList,
        GroupTree.walkList, GroupTree.walkListHearing]
      exact .refl _
  | first :: others, kept, position, index => by
      rw [GroupTree.measuredList, GroupTree.listKeeping, GroupTree.measuredList,
        GroupTree.walkList, GroupTree.walkListHearing, Walk.mapEvents_bind, Walk.mapEvents_bind]
      exact (first.follows_keeping (kept.inside index) position).bind fun next =>
        GroupTree.listFollows_keeping others kept next (index + 1)

/-- The block with the kept fields is read like the whole one, which tells of these fields only. -/
theorem BlockTree.follows_keeping : ∀ (body : BlockTree) (kept : FieldSet)
    (start blockLength : Nat),
      Walk.Follows
        (((body.measured.keeping kept).measured.walk source start blockLength).mapEvents
          Event.unspanned)
        ((body.measured.walkHearing source kept start blockLength).mapEvents Event.unspanned)
  | .block fields groups varData, kept, start, blockLength => by
      have sameVarData : (varData.map VarDataTree.measured).map VarDataTree.measured =
          varData.map VarDataTree.measured := by
        rw [List.map_map]
        exact List.map_congr_left fun data _ => data.measured_measured
      rw [BlockTree.measured, BlockTree.keeping, BlockTree.measured, BlockTree.walk,
        BlockTree.walkHearing, sameVarData]
      simp only [Walk.mapEvents_bind]
      exact ((FieldTree.follows_keeping source kept start fields 0).mapEvents _).bind fun _ =>
        (GroupTree.listFollows_keeping groups kept _ 0).bind fun _ => .refl _

end

/-- The message with the kept fields is read like the whole one, which tells of these fields
only. -/
theorem MessageTree.follows_keeping (tree : MessageTree) (kept : FieldSet)
    (offset blockLength : Nat) :
    Walk.Follows
      (((tree.measured.keeping kept).measured.walk source offset blockLength).mapEvents
        Event.unspanned)
      ((tree.measured.walkHearing source kept offset blockLength).mapEvents Event.unspanned) := by
  rw [MessageTree.walk, MessageTree.walkHearing, Walk.mapEvents_bracket, Walk.mapEvents_bracket]
  exact (tree.body.follows_keeping source kept offset blockLength).bracket _ _ _

/-! ### Stored messages -/

theorem FieldTree.length_listKeeping_le (kept : FieldSet) :
    ∀ (fields : List FieldTree) (index : Nat),
      ((FieldTree.listKeeping kept index fields).flatMap FieldTree.tokens).length ≤
        (fields.flatMap FieldTree.tokens).length
  | [], _ => Nat.le_refl _
  | field :: fields, index => by
      have fewer := FieldTree.length_listKeeping_le kept fields (index + 1)
      rw [FieldTree.listKeeping, List.flatMap_cons, List.length_append]
      split
      · rw [List.flatMap_cons, List.length_append]
        omega
      · omega

mutual

theorem GroupTree.length_keeping_le : ∀ (tree : GroupTree) (kept : FieldSet),
    (tree.keeping kept).tokens.length ≤ tree.tokens.length
  | .group opening dimensions body closing, kept => by
      have shorter := body.length_keeping_le kept
      rw [GroupTree.keeping, GroupTree.tokens, GroupTree.tokens, length_enclose, length_enclose,
        List.length_append, List.length_append]
      omega

theorem GroupTree.length_listKeeping_le : ∀ (groups : List GroupTree) (kept : FieldSet)
    (index : Nat),
      (GroupTree.listTokens (GroupTree.listKeeping kept index groups)).length ≤
        (GroupTree.listTokens groups).length
  | [], _, _ => Nat.le_of_eq (by rw [GroupTree.listKeeping])
  | first :: others, kept, index => by
      have shorter := first.length_keeping_le (kept.inside index)
      have fewer := GroupTree.length_listKeeping_le others kept (index + 1)
      rw [GroupTree.listKeeping, GroupTree.listTokens, GroupTree.listTokens, List.length_append,
        List.length_append]
      omega

theorem BlockTree.length_keeping_le : ∀ (tree : BlockTree) (kept : FieldSet),
    (tree.keeping kept).tokens.length ≤ tree.tokens.length
  | .block fields groups varData, kept => by
      have fewerFields := FieldTree.length_listKeeping_le kept fields 0
      have fewerGroups := GroupTree.length_listKeeping_le groups kept 0
      rw [BlockTree.keeping, BlockTree.tokens, BlockTree.tokens]
      simp only [List.length_append]
      omega

end

/-- The spans of a message that a draft has stored are those that measuring finds. -/
theorem SchemaDraft.measured_of_addMessage {draft extended : SchemaDraft} {messageId : Int64}
    {given : List Token} {message : MessageTree}
    (accepted : draft.addMessage messageId given = .ok extended)
    (isStored : extended.messages.get? messageId = some message.tokens) :
    message.measured = message := by
  obtain ⟨_, _, measured, _, _, _, _, isMeasured, _, rfl⟩ := SchemaDraft.addMessage_steps accepted
  simp only [draft.messages.get?_insert_self messageId, Option.some_inj] at isStored
  rw [isStored] at isMeasured
  exact MessageTree.measured_of_tokens (message.measuresTo.eq_of_withSpans isMeasured)

/-- A message with fewer fields.  Take the tokens that a draft has stored, leave out some fields, of
whichever blocks, and measure again.  Where the stored tokens can be read so can the others, to the
same end, and apart from the spans of messages and groups the events are those that the stored
tokens deliver without those of the fields that were left out. -/
theorem decode_keeping {draft extended : SchemaDraft} {messageId : Int64} {given : List Token}
    {message : MessageTree} (accepted : draft.addMessage messageId given = .ok extended)
    (isStored : extended.messages.get? messageId = some message.tokens)
    (countable : message.tokens.length < spanLimit) (kept : FieldSet) :
    ∃ fewer, withSpans (message.keeping kept).tokens = .ok fewer ∧
      ∀ (buffer : Buffer) (offset : Nat) (actingVersion : Int32) (blockLength : Nat),
        let hearing (heard : FieldSet) :=
          message.walkHearing ⟨buffer, actingVersion⟩ heard offset blockLength
        let ofStored := decode buffer offset actingVersion blockLength message.tokens
        let ofFewer := decode buffer offset actingVersion blockLength fewer
        ofStored = hearing .all ∧
          ∀ position, ofStored.outcome = .ok position →
            ofFewer.outcome = .ok position ∧
              ofFewer.events.map Event.unspanned = (hearing kept).events.map Event.unspanned := by
  have measured := SchemaDraft.measured_of_addMessage accepted isStored
  have small : message.body.tokens.length < spanLimit := by
    rw [MessageTree.tokens, length_enclose] at countable
    omega
  have spanned : message.body.Spanned := by
    have sameBody : message.body.measured = message.body := congrArg MessageTree.body measured
    rw [← sameBody]
    exact BlockTree.measured_spanned _ small
  have fewerSpanned : (message.keeping kept).measured.body.Spanned :=
    BlockTree.measured_spanned _ (Nat.lt_of_le_of_lt (message.body.length_keeping_le kept) small)
  refine ⟨_, MessageTree.withSpans_tokens _, ?_⟩
  intro buffer offset actingVersion blockLength hearing ofStored ofFewer
  have along : ofStored = message.walk ⟨buffer, actingVersion⟩ offset blockLength :=
    decode_tokens spanned buffer offset actingVersion blockLength
  have alongFewer : ofFewer =
      (message.keeping kept).measured.walk ⟨buffer, actingVersion⟩ offset blockLength :=
    decode_tokens fewerSpanned buffer offset actingVersion blockLength
  refine ⟨along.trans (message.walkHearing_all _ offset blockLength).symm, fun position ends => ?_⟩
  have follows := message.follows_keeping ⟨buffer, actingVersion⟩ kept offset blockLength
  rw [measured, ← alongFewer] at follows
  have hearingEnds : (hearing kept).outcome = .ok position := by
    rw [(message.omits_hearing ⟨buffer, actingVersion⟩ kept offset blockLength).outcome, ← along]
    exact ends
  have same := follows position hearingEnds
  exact ⟨(congrArg Walk.outcome same).trans hearingEnds, congrArg Walk.events same⟩

/-- All fields but the first one of a message. -/
def FieldSet.butFirst : FieldSet :=
  fun place => place != [0]

/-- The order, read by one who knows all of its fields but the price. -/
theorem decode_keeping_order :
    ∃ extended, emptyDraft.addMessage 1 orderMessage.tokens = .ok extended ∧
      let message := orderMessage.reduced.measured
      extended.messages.get? 1 = some message.tokens ∧ message.tokens.length < spanLimit ∧
        ∃ fewer, withSpans (message.keeping .butFirst).tokens = .ok fewer ∧
          ∀ (buffer : Buffer) (offset : Nat) (actingVersion : Int32) (blockLength : Nat),
            let hearing (heard : FieldSet) :=
              message.walkHearing ⟨buffer, actingVersion⟩ heard offset blockLength
            let ofStored := decode buffer offset actingVersion blockLength message.tokens
            let ofFewer := decode buffer offset actingVersion blockLength fewer
            ofStored = hearing .all ∧
              ∀ position, ofStored.outcome = .ok position →
                ofFewer.outcome = .ok position ∧
                  ofFewer.events.map Event.unspanned =
                    (hearing .butFirst).events.map Event.unspanned := by
  obtain ⟨extended, accepted⟩ := orderMessage_accepted
  have isStored := (SchemaDraft.addMessage_tokens accepted).2
  have countable : orderMessage.reduced.measured.tokens.length < spanLimit := by decide +kernel
  exact ⟨extended, accepted, isStored, countable, decode_keeping accepted isStored countable _⟩

end WireSchema
