/-
Module: WireSchema.Proofs.Findings
Purpose: A schema says which fields a block has and which groups follow it.  The bytes say the rest:
  how long the blocks are, how many entries a group has, and where the next one starts.  A finding
  holds both together.  It is a block with its start and its length, a group with the size that was
  read for it, or an entry of a group with its start; they come in the order in which they are read,
  up to the first fault.  What a reader is told about fields, groups and entries is what is told
  about its findings (`MessageTree.told_findings`).
Main exports: FoundGroup, Finding, MessageTree.findings, MessageTree.told_findings
-/
import WireSchema.Proofs.FieldVisits
import WireSchema.Proofs.StoredMessage

namespace WireSchema

/-! ### Findings -/

/-- A group that was found in a buffer, with the size that was read for it. -/
structure FoundGroup (source : Source) where
  opening : TokenOf .beginGroup
  dimensions : EncodingPair
  position : Nat
  size : GroupSize
  read : readGroupSize source opening dimensions.dimensions position = .ok size

/-- A block of fields, a group, or an entry of a group. -/
inductive Finding (source : Source) where
  | block (start length : Nat) (fields : List FieldTree)
  | group (found : FoundGroup source)
  | entry (found : FoundGroup source) (index start : Nat)

/-- What a reader is told about a finding. -/
def Finding.events {source : Source} : Finding source → List Event
  | .block start _ fields => (FieldTree.walkList source start fields).events
  | .group found => [.groupHeader found.opening found.size.count]
  | .entry found index _ => [.beginGroup found.opening index found.size.count]

/-- Whether an event is about a field, a group as a whole, or the begin of an entry. -/
def Event.isOfFinding : Event → Bool
  | .groupHeader _ _ | .beginGroup _ _ _ => true
  | event => event.isOfField

/-- What comes after a walk that ends well, and nothing after one that fails. -/
def Walk.behind {α β : Type} (walk : Walk α) (later : α → List β) : List β :=
  match walk.outcome with
  | .ok result => later result
  | .error _ => []

theorem Walk.behind_nothing {α β : Type} (walk : Walk α) :
    (walk.behind fun _ => ([] : List β)) = [] := by
  rw [Walk.behind]
  split <;> rfl

theorem Walk.behind_bracket {α β : Type} (opening closing : Event) (name : String) (walk : Walk α)
    (later : α → List β) :
    (Walk.bracket opening closing name walk).behind later = walk.behind later := by
  obtain ⟨events, outcome⟩ := walk
  cases outcome <;> rfl

theorem Walk.mem_behind {α β : Type} {walk : Walk α} {later : α → List β} {found : β} :
    found ∈ walk.behind later ↔ ∃ result, walk.outcome = .ok result ∧ found ∈ later result := by
  rw [Walk.behind]
  cases walk.outcome with
  | error problem => simp
  | ok result => simp

variable {source : Source}

/-- The entries of a group from an index on, with what is found inside each of them. -/
def FoundGroup.entries (found : FoundGroup source) (walk : Nat → Walk Nat)
    (inside : Nat → List (Finding source)) (index : Nat) :
    (count : Nat) → Nat → List (Finding source)
  | 0, _ => []
  | count + 1, start =>
    .entry found index start ::
      (inside start ++ (walk start).behind (found.entries walk inside (index + 1) count))

variable (source)

mutual

/-- What is found in a group. -/
def GroupTree.findings (position : Nat) : GroupTree → List (Finding source)
  | .group opening dimensions body _ =>
    match read : readGroupSize source opening dimensions.dimensions position with
    | .error _ => []
    | .ok size =>
      let found : FoundGroup source := ⟨opening, dimensions, position, size, read⟩
      .group found :: found.entries (fun start => body.walk source start size.blockLength)
        (fun start => body.findings start size.blockLength) 0 size.count size.start

/-- What is found in groups one after another. -/
def GroupTree.listFindings (position : Nat) : List GroupTree → List (Finding source)
  | [] => []
  | group :: groups =>
    group.findings position ++
      (group.walk source position).behind fun next => GroupTree.listFindings next groups

/-- What is found in a block and the groups behind it. -/
def BlockTree.findings (start blockLength : Nat) : BlockTree → List (Finding source)
  | .block fields groups _ =>
    .block start blockLength fields ::
      (FieldTree.walkList source start fields).behind fun _ =>
        GroupTree.listFindings (advance start blockLength) groups

end

/-- What is found in a message whose root block starts at an offset. -/
def MessageTree.findings (offset blockLength : Nat) (tree : MessageTree) : List (Finding source) :=
  tree.body.findings source offset blockLength

section

variable {source : Source} {opening : TokenOf .beginGroup} {dimensions : EncodingPair}
  {body : BlockTree} {closing : TokenOf .endGroup} {position : Nat}

theorem GroupTree.findings_of_error {problem : AccessError}
    (fails : readGroupSize source opening dimensions.dimensions position = .error problem) :
    (GroupTree.group opening dimensions body closing).findings source position = [] := by
  rw [GroupTree.findings]
  split
  · rfl
  · rename_i size read
    cases fails.symm.trans read

theorem GroupTree.findings_of_ok {size : GroupSize}
    (read : readGroupSize source opening dimensions.dimensions position = .ok size) :
    (GroupTree.group opening dimensions body closing).findings source position =
      let found : FoundGroup source := ⟨opening, dimensions, position, size, read⟩
      .group found :: found.entries (fun start => body.walk source start size.blockLength)
        (fun start => body.findings source start size.blockLength) 0 size.count size.start := by
  rw [GroupTree.findings]
  split
  · rename_i problem fails
    cases fails.symm.trans read
  · rename_i again readAgain
    cases read.symm.trans readAgain
    rfl

end

/-! ### What a reader is told about the findings -/

variable {source} {α β : Type}

/-- What a walk tells about fields, groups and entries is what is told about some findings. -/
def Walk.Finds (walk : Walk α) (findings : List (Finding source)) : Prop :=
  walk.events.filter Event.isOfFinding = findings.flatMap Finding.events

namespace Walk.Finds

theorem bind {walk : Walk α} {next : α → Walk β} {findings : List (Finding source)}
    {later : α → List (Finding source)} (first : walk.Finds findings)
    (second : ∀ result, (next result).Finds (later result)) :
    (walk >>= next).Finds (findings ++ walk.behind later) := by
  obtain ⟨events, outcome⟩ := walk
  cases outcome with
  | error problem =>
      rw [error_bind, Walk.behind, List.append_nil]
      exact first
  | ok result =>
      have behind := second result
      rw [Finds] at first behind ⊢
      rw [ok_bind, List.filter_append, List.flatMap_append, first, behind]
      rfl

/-- A walk behind which nothing is told about findings. -/
theorem before_silent {walk : Walk α} {next : α → Walk β} {findings : List (Finding source)}
    (first : walk.Finds findings)
    (second : ∀ result, (next result).Finds ([] : List (Finding source))) :
    (walk >>= next).Finds findings := by
  have both := first.bind second
  rwa [Walk.behind_nothing, List.append_nil] at both

/-- What an opening event tells of is found in front of what is inside. -/
theorem bracket {opening closing : Event} {name : String} {inner : Walk α}
    {first findings : List (Finding source)}
    (opens : [opening].filter Event.isOfFinding = first.flatMap Finding.events)
    (closes : closing.isOfFinding = false) (inside : inner.Finds findings) :
    (Walk.bracket opening closing name inner).Finds (first ++ findings) := by
  obtain ⟨events, outcome⟩ := inner
  rw [Finds] at inside ⊢
  rw [List.flatMap_append, ← opens, ← inside, ← List.filter_append]
  cases outcome with
  | error problem => rfl
  | ok result =>
      have around : (Walk.bracket opening closing name ⟨events, .ok result⟩).events =
          ([opening] ++ events) ++ [closing] := rfl
      have last : [closing].filter Event.isOfFinding = [] :=
        List.filter_cons_of_neg (by rw [closes]; decide)
      rw [around, List.filter_append, last, List.append_nil]

end Walk.Finds

theorem Event.isOfFinding_of_isOfField {event : Event} (ofField : event.isOfField = true) :
    event.isOfFinding = true := by
  cases event <;> first | rfl | exact ofField

/-- What is told of the fields of a block is told of one of them. -/
theorem FieldTree.mem_events_list {event : Event} {start : Nat} : ∀ {fields : List FieldTree},
    event ∈ (FieldTree.walkList source start fields).events →
    ∃ field ∈ fields, event ∈ (field.walk source start).events
  | [], member => absurd member List.not_mem_nil
  | first :: others, member => by
      rw [FieldTree.walkList, Walk.mem_events_bind] at member
      rcases member with here | ⟨_, _, later⟩
      · exact ⟨first, List.mem_cons_self, here⟩
      · obtain ⟨field, isField, told⟩ := FieldTree.mem_events_list later
        exact ⟨field, List.mem_cons_of_mem _ isField, told⟩

theorem FieldTree.isOfField_of_mem_list {start : Nat} {fields : List FieldTree} {event : Event}
    (member : event ∈ (FieldTree.walkList source start fields).events) :
    event.isOfField = true := by
  obtain ⟨field, _, told⟩ := FieldTree.mem_events_list member
  exact TypeTree.isOfField_of_mem source field.opening start field.type event told

/-- Reading some fields tells what is told about the block of them. -/
theorem FieldTree.finds_block (start length : Nat) (fields : List FieldTree) :
    (FieldTree.walkList source start fields).Finds
      [(.block start length fields : Finding source)] := by
  rw [Walk.Finds, List.flatMap_singleton]
  exact List.filter_eq_self.mpr fun event member =>
    Event.isOfFinding_of_isOfField (FieldTree.isOfField_of_mem_list member)

theorem VarDataTree.finds_nothing : ∀ (others : List VarDataTree) (position : Nat),
    (VarDataTree.walkList source position others).Finds ([] : List (Finding source))
  | [], _ => rfl
  | data :: others, position => by
      rw [VarDataTree.walkList]
      refine .before_silent ?_ fun next => VarDataTree.finds_nothing others next
      rw [VarDataTree.walk]
      exact .before_silent rfl fun _ => .before_silent rfl fun _ => rfl

/-- Entries tell what is told about them and about what is found in each. -/
theorem FoundGroup.finds_entries (found : FoundGroup source) {walk : Nat → Walk Nat}
    {inside : Nat → List (Finding source)} (each : ∀ start, (walk start).Finds (inside start))
    (count : Nat) : ∀ index start,
      (Walk.inTurn (fun index start =>
        Walk.bracket (.beginGroup found.opening index found.size.count)
          (.endGroup found.opening index found.size.count) found.opening.1.name (walk start))
        index count start).Finds (found.entries walk inside index count start) := by
  induction count with
  | zero => exact fun _ _ => rfl
  | succ count ih =>
      intro index start
      have opens : [Event.beginGroup found.opening index found.size.count].filter
          Event.isOfFinding = [Finding.entry found index start].flatMap Finding.events := rfl
      have closes : (Event.endGroup found.opening index found.size.count).isOfFinding = false := rfl
      have one : (Walk.bracket (.beginGroup found.opening index found.size.count)
          (.endGroup found.opening index found.size.count) found.opening.1.name
          (walk start)).Finds ([.entry found index start] ++ inside start) :=
        .bracket opens closes (each start)
      have all := one.bind fun next => ih (index + 1) next
      rw [Walk.behind_bracket] at all
      exact all

mutual

theorem GroupTree.finds : ∀ (tree : GroupTree) (position : Nat),
    (tree.walk source position).Finds (tree.findings source position)
  | .group opening dimensions body closing, position => by
      cases read : readGroupSize source opening dimensions.dimensions position with
      | error problem =>
          rw [GroupTree.walk, read, GroupTree.findings_of_error read]
          rfl
      | ok size =>
          let found : FoundGroup source := ⟨opening, dimensions, position, size, read⟩
          have header : (Walk.emit (.groupHeader opening size.count)).Finds [Finding.group found] :=
            rfl
          rw [GroupTree.walk, read, Walk.check_ok_bind, GroupTree.findings_of_ok read]
          exact header.bind fun _ => found.finds_entries
            (fun start => body.finds start size.blockLength) size.count 0 size.start

theorem GroupTree.list_finds : ∀ (groups : List GroupTree) (position : Nat),
    (GroupTree.walkList source position groups).Finds
      (GroupTree.listFindings source position groups)
  | [], _ => rfl
  | group :: groups, position => by
      rw [GroupTree.walkList, GroupTree.listFindings]
      exact (group.finds position).bind fun next => GroupTree.list_finds groups next

theorem BlockTree.finds : ∀ (tree : BlockTree) (start blockLength : Nat),
    (tree.walk source start blockLength).Finds (tree.findings source start blockLength)
  | .block fields groups varData, start, blockLength => by
      rw [BlockTree.walk, BlockTree.findings]
      refine (FieldTree.finds_block start blockLength fields).bind fun _ => ?_
      exact (GroupTree.list_finds groups (advance start blockLength)).before_silent fun next =>
        VarDataTree.finds_nothing varData next

end

/-- What a reader of a message is told about fields, groups and entries is what it is told about
its findings. -/
theorem MessageTree.told_findings (tree : MessageTree) (offset blockLength : Nat) :
    (tree.walk source offset blockLength).events.filter Event.isOfFinding =
      (tree.findings source offset blockLength).flatMap Finding.events :=
  have opens : [Event.beginMessage tree.opening].filter Event.isOfFinding =
      ([] : List (Finding source)).flatMap Finding.events := rfl
  Walk.Finds.bracket opens rfl (tree.body.finds offset blockLength)

/-- The same of a message that was accepted, and is read as it was stored. -/
theorem SchemaDraft.told_findings {draft extended : SchemaDraft} {messageId : Int64}
    {message : MessageTree} (accepted : draft.addMessage messageId message.tokens = .ok extended)
    (countable : message.tokens.length < spanLimit) (buffer : Buffer) (offset : Nat)
    (actingVersion : Int32) (blockLength : Nat) :
    let stored := message.reduced.measured
    let findings := stored.findings ⟨buffer, actingVersion⟩ offset blockLength
    (decode buffer offset actingVersion blockLength stored.tokens).events.filter Event.isOfFinding =
      findings.flatMap Finding.events := by
  intro stored findings
  rw [decode_tokens (SchemaDraft.spanned_of_addMessage accepted countable)]
  exact stored.told_findings offset blockLength

end WireSchema
