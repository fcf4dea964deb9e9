/-
Module: WireSchema.Proofs.FieldVisits
Purpose: While a message is read its fields are visited in the order of the document, those of a
  group once for each entry.  Which ones are visited, and where the block around each of them
  starts, depends on the bytes: on the sizes of the groups, and on the first fault.  What a reader
  is told about fields is what it is told at each of these visits, one after another
  (`MessageTree.told_visits`).
Main exports: Visit, MessageTree.visits, MessageTree.told_visits
-/
import WireSchema.Proofs.TreeWalk

namespace WireSchema

/-- Whether an event is about a field or a part of one, and not about a message, a group or variable
data. -/
def Event.isOfField : Event → Bool
  | .encoding _ _ _ | .enumeration _ _ _ _ | .bitSet _ _ _ | .beginComposite _ _
  | .endComposite _ _ => true
  | .beginMessage _ | .endMessage _ | .groupHeader _ _ | .beginGroup _ _ _ | .endGroup _ _ _
  | .varData _ _ _ => false

/-- A field that a reader gets to, and the position that the block around it starts at. -/
structure Visit where
  field : FieldTree
  base : Nat

/-- What a reader is told at a visit. -/
def Visit.events (source : Source) (visit : Visit) : List Event :=
  (visit.field.walk source visit.base).events

/-! ### The visits of a walk -/

/-- What comes after a walk that ends well, and nothing after one that fails. -/
def Walk.visitsBehind {α : Type} (walk : Walk α) (later : α → List Visit) : List Visit :=
  match walk.outcome with
  | .ok result => later result
  | .error _ => []

/-- The visits to fields of a block that starts at a base. -/
def FieldTree.listVisits (source : Source) (base : Nat) : List FieldTree → List Visit
  | [] => []
  | field :: fields =>
    ⟨field, base⟩ ::
      (field.walk source base).visitsBehind fun _ => FieldTree.listVisits source base fields

/-- The visits in entries one after another, from those in each of them. -/
def entryVisits (walk : Nat → Walk Nat) (visits : Nat → List Visit) :
    (count : Nat) → Nat → List Visit
  | 0, _ => []
  | count + 1, start =>
    visits start ++ (walk start).visitsBehind (entryVisits walk visits count)

mutual

/-- The visits in a group. -/
def GroupTree.visits (source : Source) (position : Nat) : GroupTree → List Visit
  | .group opening dimensions body _ =>
    (Walk.check (readGroupSize source opening dimensions.dimensions position)).visitsBehind
      fun size => entryVisits (fun start => body.walk source start size.blockLength)
        (fun start => body.visits source start size.blockLength) size.count size.start

/-- The visits in groups one after another. -/
def GroupTree.listVisits (source : Source) (position : Nat) : List GroupTree → List Visit
  | [] => []
  | group :: groups =>
    group.visits source position ++
      (group.walk source position).visitsBehind fun next => GroupTree.listVisits source next groups

/-- The visits in a block and the groups behind it. -/
def BlockTree.visits (source : Source) (start blockLength : Nat) : BlockTree → List Visit
  | .block fields groups _ =>
    FieldTree.listVisits source start fields ++
      (FieldTree.walkList source start fields).visitsBehind fun _ =>
        GroupTree.listVisits source (advance start blockLength) groups

end

/-- The visits in a message whose root block starts at an offset. -/
def MessageTree.visits (source : Source) (offset blockLength : Nat) (tree : MessageTree) :
    List Visit :=
  tree.body.visits source offset blockLength

/-! ### What a reader is told at the visits -/

/-- What a walk tells about fields is what is told at some visits. -/
def Walk.Tells {α : Type} (source : Source) (walk : Walk α) (visits : List Visit) : Prop :=
  walk.events.filter Event.isOfField = visits.flatMap (Visit.events source)

namespace Walk.Tells

variable {source : Source} {α β : Type}

theorem done (result : α) : Tells source (Walk.done result) [] :=
  rfl

theorem check (step : Except AccessError α) : Tells source (Walk.check step) [] :=
  rfl

theorem emit {event : Event} (other : event.isOfField = false) :
    Tells source (Walk.emit event) [] := by
  rw [Tells, Walk.emit, List.filter_cons_of_neg (by rw [other]; decide)]
  rfl

theorem bind {walk : Walk α} {next : α → Walk β} {visits : List Visit} {later : α → List Visit}
    (first : Tells source walk visits)
    (second : ∀ result, Tells source (next result) (later result)) :
    Tells source (walk >>= next) (visits ++ walk.visitsBehind later) := by
  obtain ⟨events, outcome⟩ := walk
  cases outcome with
  | error problem =>
      rw [error_bind, Walk.visitsBehind, List.append_nil]
      exact first
  | ok result =>
      have behind := second result
      rw [Tells] at first behind ⊢
      rw [ok_bind, List.filter_append, List.flatMap_append, first, behind]
      rfl

/-- A step without events in front. -/
theorem check_bind {step : Except AccessError α} {next : α → Walk β} {later : α → List Visit}
    (second : ∀ result, Tells source (next result) (later result)) :
    Tells source (Walk.check step >>= next) ((Walk.check step).visitsBehind later) :=
  (check step).bind second

/-- An event in front that is about no field. -/
theorem emit_bind {event : Event} {next : Unit → Walk β} {visits : List Visit}
    (other : event.isOfField = false) (second : Tells source (next ()) visits) :
    Tells source (Walk.emit event >>= next) visits :=
  (emit other).bind fun _ => second

/-- A walk behind which nothing is told about fields. -/
theorem bind_untold {walk : Walk α} {next : α → Walk β} {visits : List Visit}
    (first : Tells source walk visits) (second : ∀ result, Tells source (next result) []) :
    Tells source (walk >>= next) visits := by
  have both := first.bind second
  have nothing : walk.visitsBehind (fun _ => []) = [] := by
    rw [Walk.visitsBehind]
    split <;> rfl
  rwa [nothing, List.append_nil] at both

theorem bracket {opening closing : Event} (opens : opening.isOfField = false)
    (closes : closing.isOfField = false) (name : String) {inner : Walk α} {visits : List Visit}
    (inside : Tells source inner visits) :
    Tells source (Walk.bracket opening closing name inner) visits := by
  obtain ⟨events, outcome⟩ := inner
  rw [Tells] at inside ⊢
  cases outcome with
  | ok result =>
      rw [Walk.bracket, List.filter_cons_of_neg (by rw [opens]; decide), List.filter_append,
        List.filter_cons_of_neg (by rw [closes]; decide), List.filter_nil, List.append_nil]
      exact inside
  | error problem =>
      rw [Walk.bracket, List.filter_cons_of_neg (by rw [opens]; decide)]
      exact inside

end Walk.Tells

variable (source : Source)

/-! ### Fields -/

mutual

/-- Everything that is told about a type is about the field around it. -/
theorem TypeTree.isOfField_of_mem (field : Token) (base : Nat) :
    ∀ tree : TypeTree, ∀ event ∈ (tree.walk source field base).events, event.isOfField = true
  | .encoding leaf => fun event member => by
      rw [TypeTree.walk, Walk.mem_events_check_bind] at member
      obtain ⟨value, _, member⟩ := member
      rw [Walk.mem_events_emit.mp member]
      rfl
  | .enumeration tree => fun event member => by
      rw [TypeTree.walk, EnumTree.walk, Walk.mem_events_check_bind] at member
      obtain ⟨value, _, member⟩ := member
      rw [Walk.mem_events_emit.mp member]
      rfl
  | .set tree => fun event member => by
      rw [TypeTree.walk, SetTree.walk, Walk.mem_events_check_bind] at member
      obtain ⟨value, _, member⟩ := member
      rw [Walk.mem_events_emit.mp member]
      rfl
  | .composite opening members closing => fun event member => by
      rw [TypeTree.walk, Walk.mem_events_check_bind] at member
      obtain ⟨start, _, member⟩ := member
      rcases Walk.mem_events_bracket member with rfl | inside | rfl
      · rfl
      · exact TypeTree.isOfField_of_mem_members field start members event inside
      · rfl

theorem TypeTree.isOfField_of_mem_members (field : Token) (start : Nat) :
    ∀ members : List TypeTree,
      ∀ event ∈ (TypeTree.walkMembers source field start members).events, event.isOfField = true
  | [] => fun _ member => absurd member List.not_mem_nil
  | first :: others => fun event member => by
      rw [TypeTree.walkMembers, Walk.mem_events_bind] at member
      rcases member with here | ⟨_, _, later⟩
      · exact first.isOfField_of_mem field start event here
      · exact TypeTree.isOfField_of_mem_members field start others event later

end

/-- Reading a field tells what is told at the visit to it. -/
theorem FieldTree.tells_visit (field : FieldTree) (base : Nat) :
    (field.walk source base).Tells source [⟨field, base⟩] := by
  have all := TypeTree.isOfField_of_mem source field.opening base field.type
  rw [Walk.Tells, List.flatMap_singleton]
  exact List.filter_eq_self.mpr all

theorem FieldTree.tells_listVisits (base : Nat) : ∀ fields : List FieldTree,
    (FieldTree.walkList source base fields).Tells source (FieldTree.listVisits source base fields)
  | [] => .done ()
  | field :: fields => by
      rw [FieldTree.walkList, FieldTree.listVisits]
      exact (field.tells_visit source base).bind fun _ => FieldTree.tells_listVisits base fields

/-! ### Variable data, groups and blocks -/

theorem VarDataTree.tells_nothing : ∀ (others : List VarDataTree) (position : Nat),
    (VarDataTree.walkList source position others).Tells source []
  | [], position => .done position
  | data :: others, position => by
      rw [VarDataTree.walkList]
      refine .bind_untold ?_ fun next => VarDataTree.tells_nothing others next
      rw [VarDataTree.walk]
      exact .bind_untold (.check _) fun _ => .emit_bind rfl (.done _)

/-- Entries tell what is told at the visits in each of them. -/
theorem tells_entryVisits {opening closing : Nat → Event} {name : String}
    (opens : ∀ index, (opening index).isOfField = false)
    (closes : ∀ index, (closing index).isOfField = false) {walk : Nat → Walk Nat}
    {visits : Nat → List Visit} (each : ∀ start, (walk start).Tells source (visits start))
    (count : Nat) : ∀ index start,
      (Walk.inTurn (fun index start =>
        Walk.bracket (opening index) (closing index) name (walk start)) index count start).Tells
        source (entryVisits walk visits count start) := by
  induction count with
  | zero => exact fun _ start => .done start
  | succ count ih =>
      intro index start
      have one := Walk.Tells.bracket (opens index) (closes index) name (each start)
      have all := one.bind fun next => ih (index + 1) next
      have behind : (Walk.bracket (opening index) (closing index) name (walk start)).visitsBehind
          (entryVisits walk visits count) =
            (walk start).visitsBehind (entryVisits walk visits count) := by
        rcases walk start with ⟨events, outcome⟩
        cases outcome <;> rfl
      rw [Walk.inTurn, entryVisits, ← behind]
      exact all

mutual

theorem GroupTree.tells_visits : ∀ (tree : GroupTree) (position : Nat),
    (tree.walk source position).Tells source (tree.visits source position)
  | .group opening dimensions body closing, position => by
      rw [GroupTree.walk, GroupTree.visits]
      refine .check_bind fun size => .emit_bind rfl ?_
      exact tells_entryVisits source (fun _ => rfl) (fun _ => rfl)
        (fun start => body.tells_visits start size.blockLength) size.count 0 size.start

theorem GroupTree.tells_listVisits : ∀ (groups : List GroupTree) (position : Nat),
    (GroupTree.walkList source position groups).Tells source
      (GroupTree.listVisits source position groups)
  | [], position => .done position
  | group :: groups, position => by
      rw [GroupTree.walkList, GroupTree.listVisits]
      exact (group.tells_visits position).bind fun next =>
        GroupTree.tells_listVisits groups next

theorem BlockTree.tells_visits : ∀ (tree : BlockTree) (start blockLength : Nat),
    (tree.walk source start blockLength).Tells source (tree.visits source start blockLength)
  | .block fields groups varData, start, blockLength => by
      rw [BlockTree.walk, BlockTree.visits]
      refine (FieldTree.tells_listVisits source start fields).bind fun _ => ?_
      exact (GroupTree.tells_listVisits groups (advance start blockLength)).bind_untold fun next =>
        VarDataTree.tells_nothing source varData next

end

/-- What a reader of a message is told about fields is what it is told at the visits to them. -/
theorem MessageTree.told_visits (tree : MessageTree) (offset blockLength : Nat) :
    (tree.walk source offset blockLength).events.filter Event.isOfField =
      (tree.visits source offset blockLength).flatMap (Visit.events source) :=
  Walk.Tells.bracket rfl rfl _ (tree.body.tells_visits source offset blockLength)

/-! ### Visited fields -/

theorem Walk.mem_visitsBehind {α : Type} {walk : Walk α} {later : α → List Visit} {visit : Visit}
    (member : visit ∈ walk.visitsBehind later) : ∃ result, visit ∈ later result := by
  rw [Walk.visitsBehind] at member
  split at member
  · exact ⟨_, member⟩
  · cases member

theorem FieldTree.mem_of_mem_listVisits {base : Nat} {visit : Visit} :
    ∀ {fields : List FieldTree}, visit ∈ FieldTree.listVisits source base fields →
      visit.field ∈ fields
  | [], member => absurd member List.not_mem_nil
  | field :: fields, member => by
      rw [FieldTree.listVisits, List.mem_cons] at member
      rcases member with rfl | later
      · exact List.mem_cons_self
      · obtain ⟨_, later⟩ := Walk.mem_visitsBehind later
        exact List.mem_cons_of_mem field (FieldTree.mem_of_mem_listVisits later)

theorem mem_entryVisits {walk : Nat → Walk Nat} {visits : Nat → List Visit} {visit : Visit}
    {count : Nat} : ∀ {start : Nat}, visit ∈ entryVisits walk visits count start →
      ∃ start, visit ∈ visits start := by
  induction count with
  | zero => exact fun member => absurd member List.not_mem_nil
  | succ count ih =>
      intro start member
      rw [entryVisits, List.mem_append] at member
      rcases member with first | later
      · exact ⟨start, first⟩
      · obtain ⟨_, later⟩ := Walk.mem_visitsBehind later
        exact ih later

mutual

theorem GroupTree.mem_allFields_of_visit {visit : Visit} : ∀ {tree : GroupTree} {position : Nat},
    visit ∈ tree.visits source position → visit.field ∈ tree.allFields
  | .group _ _ body _, position, member => by
      rw [GroupTree.visits] at member
      obtain ⟨_, member⟩ := Walk.mem_visitsBehind member
      obtain ⟨_, inside⟩ := mem_entryVisits member
      rw [GroupTree.allFields]
      exact BlockTree.mem_allFields_of_visit inside

theorem GroupTree.mem_listAllFields_of_visit {visit : Visit} :
    ∀ {groups : List GroupTree} {position : Nat},
      visit ∈ GroupTree.listVisits source position groups →
      visit.field ∈ GroupTree.listAllFields groups
  | [], position, member => by
      rw [GroupTree.listVisits] at member
      cases member
  | group :: groups, position, member => by
      rw [GroupTree.listVisits, List.mem_append] at member
      rw [GroupTree.listAllFields, List.mem_append]
      rcases member with first | later
      · exact .inl (GroupTree.mem_allFields_of_visit first)
      · obtain ⟨_, later⟩ := Walk.mem_visitsBehind later
        exact .inr (GroupTree.mem_listAllFields_of_visit later)

theorem BlockTree.mem_allFields_of_visit {visit : Visit} :
    ∀ {tree : BlockTree} {start blockLength : Nat},
      visit ∈ tree.visits source start blockLength → visit.field ∈ tree.allFields
  | .block fields groups _, start, blockLength, member => by
      rw [BlockTree.visits, List.mem_append] at member
      rw [BlockTree.allFields, List.mem_append]
      rcases member with first | later
      · exact .inl (FieldTree.mem_of_mem_listVisits source first)
      · obtain ⟨_, later⟩ := Walk.mem_visitsBehind later
        exact .inr (GroupTree.mem_listAllFields_of_visit later)

end

end WireSchema
