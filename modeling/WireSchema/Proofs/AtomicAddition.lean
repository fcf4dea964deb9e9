/-
Module: WireSchema.Proofs.AtomicAddition
Purpose: Here a message is added to a draft in place, by a program whose changes to the draft stay
  when it breaks off.  The types of the message are collected apart, weighed against the definitions
  found so far in front of those of the draft, and merged into the draft at the end.
Main exports: Settles, SettlesInTurn, BreaksOff, Drafting, SchemaDraft.add_atomic
-/
import WireSchema.Proofs.DraftHistory
import WireSchema.Proofs.StoredNesting

namespace WireSchema

/-!
Nothing of that shows (`SchemaDraft.add_atomic`).  An addition that breaks off has changed nothing,
so a session may leave its failed calls out; one that succeeds leaves the types that the rule for
types defined twice (`Settles`) makes of the old ones, type by type and directly in the registry,
and puts one message under its number.
-/

/-! ### Putting a value under a key -/

namespace Registry

variable {κ α : Type} [DecidableEq κ]

/-- A new key comes last; a key that is there stays where it first stands, with the new value. -/
inductive Put (registry : Registry κ α) (key : κ) (value : α) : Registry κ α → Prop where
  | last (absent : key ∉ registry.entries.map (·.1)) :
      Put registry key value ⟨registry.entries ++ [(key, value)]⟩
  | inPlace {before after : List (κ × α)} {old : α} (first : key ∉ before.map (·.1))
      (stands : registry.entries = before ++ (key, old) :: after) :
      Put registry key value ⟨before ++ (key, value) :: after⟩

theorem insertEntry_of_first {key : κ} {before : List (κ × α)} (first : key ∉ before.map (·.1))
    (old value : α) (after : List (κ × α)) :
    insertEntry key value (before ++ (key, old) :: after) = before ++ (key, value) :: after := by
  induction before with
  | nil => rw [List.nil_append, insertEntry, if_pos rfl, List.nil_append]
  | cons entry before ih =>
      rw [List.map_cons, List.mem_cons, not_or] at first
      rw [List.cons_append, insertEntry, if_neg (Ne.symm first.1), ih first.2, List.cons_append]

/-- A key that is there has a first place. -/
theorem exists_first {key : κ} {entries : List (κ × α)} (present : key ∈ entries.map (·.1)) :
    ∃ before old after, key ∉ before.map (·.1) ∧ entries = before ++ (key, old) :: after := by
  induction entries with
  | nil => cases present
  | cons entry rest ih =>
      by_cases same : entry.1 = key
      · subst same
        exact ⟨[], entry.2, rest, List.not_mem_nil, rfl⟩
      · rw [List.map_cons, List.mem_cons] at present
        obtain ⟨before, old, after, first, rfl⟩ := ih (present.resolve_left (Ne.symm same))
        refine ⟨entry :: before, old, after, ?_, rfl⟩
        rw [List.map_cons, List.mem_cons, not_or]
        exact ⟨Ne.symm same, first⟩

theorem put_iff {registry next : Registry κ α} {key : κ} {value : α} :
    registry.Put key value next ↔ next = registry.insert key value := by
  constructor
  · rintro (absent | ⟨first, stands⟩)
    · rw [insert, insertEntry_of_not_mem absent]
    · rw [insert, stands, insertEntry_of_first first]
  · rintro rfl
    by_cases present : key ∈ registry.entries.map (·.1)
    · obtain ⟨before, old, after, first, stands⟩ := exists_first present
      rw [insert, stands, insertEntry_of_first first]
      exact .inPlace first stands
    · rw [insert, insertEntry_of_not_mem present]
      exact .last present

end Registry

/-! ### The rule for types that are defined twice -/

section Rule

variable (policy : DuplicatePolicy)

/-- What the rule makes of a registry and one more type.  A type with the layout of the known one,
or an enum that was reduced, is not taken over; a known enum that was reduced makes room for the
type, and any other known type does where the last one wins. -/
inductive Settles (registry : Registry String (List Token)) (type : String × List Token) :
    Registry String (List Token) → Prop where
  | new {next : Registry String (List Token)} (unknown : registry.get? type.1 = none)
      (put : registry.Put type.1 type.2 next) : Settles registry type next
  | kept {known : List Token} (isKnown : registry.get? type.1 = some known)
      (alike : sameLayout known type.2 = true ∨ isReducedEnum type.2 = true) :
      Settles registry type registry
  | completed {known : List Token} {next : Registry String (List Token)}
      (isKnown : registry.get? type.1 = some known)
      (different : sameLayout known type.2 = false) (full : isReducedEnum type.2 = false)
      (reduced : isReducedEnum known = true) (put : registry.Put type.1 type.2 next) :
      Settles registry type next
  | replaced {known : List Token} {next : Registry String (List Token)}
      (isKnown : registry.get? type.1 = some known)
      (different : sameLayout known type.2 = false) (full : isReducedEnum type.2 = false)
      (lastWins : policy = .lastWins) (put : registry.Put type.1 type.2 next) :
      Settles registry type next

/-- A type that the rule rejects. -/
structure Clashes (registry : Registry String (List Token)) (type : String × List Token) :
    Prop where
  rejects : policy = .reject
  known : ∃ known, registry.get? type.1 = some known ∧ sameLayout known type.2 = false ∧
    isReducedEnum known = false ∧ isReducedEnum type.2 = false

/-- The rule applied to some types in turn, each time to the registry that the types before it have
left. -/
inductive SettlesInTurn : Registry String (List Token) → List (String × List Token) →
    Registry String (List Token) → Prop where
  | nil {registry : Registry String (List Token)} : SettlesInTurn registry [] registry
  | cons {registry between next : Registry String (List Token)} {type : String × List Token}
      {types : List (String × List Token)} (first : Settles policy registry type between)
      (later : SettlesInTurn between types next) : SettlesInTurn registry (type :: types) next

/-- The rule applied to some types in turn comes upon one that it rejects. -/
inductive BreaksOff : Registry String (List Token) → List (String × List Token) →
    SchemaError → Prop where
  | clash {registry : Registry String (List Token)} {type : String × List Token}
      {types : List (String × List Token)} (clashes : Clashes policy registry type) :
      BreaksOff registry (type :: types) (.conflictingType type.1)
  | later {registry between : Registry String (List Token)} {type : String × List Token}
      {types : List (String × List Token)} {problem : SchemaError}
      (first : Settles policy registry type between) (breaks : BreaksOff between types problem) :
      BreaksOff registry (type :: types) problem

variable {policy} {registry next : Registry String (List Token)} {type : String × List Token}

theorem settles_of_settleType (settled : settleType policy registry type = .ok next) :
    Settles policy registry type next := by
  rw [settleType_eq_ok_iff] at settled
  cases isKnown : registry.get? type.1 with
  | none =>
      rw [isKnown] at settled
      rcases settled with ⟨keeps, _⟩ | ⟨_, rfl⟩
      · cases keeps
      · exact .new isKnown (Registry.put_iff.mpr rfl)
  | some known =>
      rw [isKnown, decideType] at settled
      split at settled
      · rename_i alike
        rcases settled with ⟨_, rfl⟩ | ⟨defines, _⟩
        · exact .kept isKnown (by simpa using alike)
        · cases defines
      · rename_i unlike
        have apart : sameLayout known type.2 = false ∧ isReducedEnum type.2 = false := by
          simpa using unlike
        split at settled
        · rcases settled with ⟨keeps, _⟩ | ⟨defines, _⟩
          · cases keeps
          · cases defines
        · rename_i mayDefine
          rcases settled with ⟨keeps, _⟩ | ⟨_, rfl⟩
          · cases keeps
          by_cases reduced : isReducedEnum known = true
          · exact .completed isKnown apart.1 apart.2 reduced (Registry.put_iff.mpr rfl)
          · have lastWins : policy = .lastWins := by
              cases policy with
              | lastWins => rfl
              | reject => simp [reduced] at mayDefine
            exact .replaced isKnown apart.1 apart.2 lastWins (Registry.put_iff.mpr rfl)

theorem clashes_of_settleType {problem : SchemaError}
    (failed : settleType policy registry type = .error problem) :
    Clashes policy registry type ∧ problem = .conflictingType type.1 := by
  rw [settleType] at failed
  split at failed
  · cases failed
  · cases failed
  · rename_i decided
    cases failed
    refine ⟨?_, rfl⟩
    cases isKnown : registry.get? type.1 with
    | none =>
        rw [isKnown] at decided
        cases decided
    | some known =>
        rw [isKnown, decideType] at decided
        split at decided
        · cases decided
        · rename_i unlike
          have apart : sameLayout known type.2 = false ∧ isReducedEnum type.2 = false := by
            simpa using unlike
          split at decided
          · rename_i conflict
            have both : isReducedEnum known = false ∧ policy = .reject := by simpa using conflict
            exact ⟨both.2, known, isKnown, apart.1, both.1, apart.2⟩
          · cases decided

theorem settleType_eq_ok_iff_settles :
    settleType policy registry type = .ok next ↔ Settles policy registry type next := by
  refine ⟨settles_of_settleType, fun settles => settleType_eq_ok_iff.mpr ?_⟩
  cases settles with
  | new unknown put => exact .inr ⟨by rw [unknown]; rfl, Registry.put_iff.mp put⟩
  | kept isKnown alike => exact .inl ⟨by simp [decideType, isKnown, alike], rfl⟩
  | completed isKnown different full reduced put =>
      refine .inr ⟨?_, Registry.put_iff.mp put⟩
      simp [decideType, isKnown, different, full, reduced]
  | replaced isKnown different full lastWins put =>
      refine .inr ⟨?_, Registry.put_iff.mp put⟩
      simp [decideType, isKnown, different, full, lastWins]

theorem settleType_eq_error_iff_clashes {problem : SchemaError} :
    settleType policy registry type = .error problem ↔
      Clashes policy registry type ∧ problem = .conflictingType type.1 := by
  refine ⟨clashes_of_settleType, ?_⟩
  rintro ⟨⟨rejects, known, isKnown, different, knownFull, full⟩, rfl⟩
  simp [settleType, decideType, isKnown, different, knownFull, full, rejects]

/-- Settling some types in turn follows the rule. -/
theorem settleTypes_eq_ok_iff {types : List (String × List Token)} :
    settleTypes policy registry types = .ok next ↔ SettlesInTurn policy registry types next := by
  constructor
  · intro settled
    induction types generalizing registry with
    | nil =>
        cases settled
        exact .nil
    | cons type types ih =>
        rw [settleTypes_cons] at settled
        obtain ⟨between, isBetween, settled⟩ := ok_of_bind settled
        exact .cons (settles_of_settleType isBetween) (ih settled)
  · intro settles
    induction settles with
    | nil => rfl
    | cons first _ ih =>
        rw [settleTypes_cons, bind_of_ok (settleType_eq_ok_iff_settles.mpr first), ih]

/-- Settling some types in turn breaks off where the rule does. -/
theorem settleTypes_eq_error_iff {types : List (String × List Token)} {problem : SchemaError} :
    settleTypes policy registry types = .error problem ↔
      BreaksOff policy registry types problem := by
  constructor
  · intro failed
    induction types generalizing registry with
    | nil => cases failed
    | cons type types ih =>
        rw [settleTypes_cons] at failed
        cases settled : settleType policy registry type with
        | error reason =>
            rw [settled] at failed
            cases failed
            obtain ⟨clashes, rfl⟩ := clashes_of_settleType settled
            exact .clash clashes
        | ok between =>
            rw [settled] at failed
            exact .later (settles_of_settleType settled) (ih failed)
  · intro breaks
    induction breaks with
    | clash clashes =>
        rw [settleTypes_cons, settleType_eq_error_iff_clashes.mpr ⟨clashes, rfl⟩]
        rfl
    | later first _ ih =>
        rw [settleTypes_cons, bind_of_ok (settleType_eq_ok_iff_settles.mpr first), ih]

end Rule

/-! ### Adding in place -/

/-- A program that changes a draft in place.  What it has changed stays when it breaks off. -/
abbrev Drafting := ExceptT SchemaError (StateM SchemaDraft)

namespace Drafting

/-- Add a captured type to those found so far, weighed against them and the types of the draft. -/
def collect (found : Registry String (List Token)) (captured : String × List Token) :
    Drafting (Registry String (List Token)) := do
  let draft ← get
  draft.registerType found captured

/-- Add a message. -/
def add (messageId : Int64) (tokens : List Token) : Drafting Unit := do
  checkMessage messageId tokens
  let captured ← typesOf tokens
  let reduced ← reduceConstants 0 tokens
  let measured ← withSpans reduced
  let found ← captured.foldlM collect {}
  modify fun draft => { draft with types := draft.types.extend found }
  modify fun draft => { draft with messages := draft.messages.insert messageId measured }

/-- Do a call. -/
def call : DraftCall → Drafting Unit
  | .configure options identity => modify fun draft => { draft with options, identity }
  | .add messageId tokens => add messageId tokens

/-- Do some calls in turn, whether they succeed or not. -/
def session (calls : List DraftCall) : StateM SchemaDraft (List (Except SchemaError Unit)) :=
  calls.mapM fun next => (call next).run

/-- What there is after a draft was to become another one: the other one, or the draft as it was and
a problem. -/
def become (draft : SchemaDraft) :
    Except SchemaError SchemaDraft → Except SchemaError Unit × SchemaDraft
  | .ok extended => (.ok (), extended)
  | .error problem => (.error problem, draft)

theorem run_check {α : Type} {draft : SchemaDraft} {first : Except SchemaError α}
    {later : α → Drafting Unit} {plain : α → Except SchemaError SchemaDraft}
    (same : ∀ value, (later value).run.run draft = become draft (plain value)) :
    (liftM first >>= later : Drafting Unit).run.run draft = become draft (first >>= plain) := by
  cases first with
  | error problem => rfl
  | ok value => exact same value

/-- Collecting types leaves the draft as it is. -/
theorem run_collect (draft : SchemaDraft) (captured : List (String × List Token)) :
    ∀ found : Registry String (List Token), (captured.foldlM collect found).run.run draft =
      (captured.foldlM draft.registerType found, draft) := by
  induction captured with
  | nil => exact fun _ => rfl
  | cons first others ih =>
      intro found
      have one : (collect found first).run.run draft =
          (draft.registerType found first, draft) := rfl
      rw [List.foldlM_cons, List.foldlM_cons, ExceptT.run_bind, StateT.run_bind, one]
      cases draft.registerType found first with
      | error problem => rfl
      | ok between => exact ih between

/-- Adding in place is adding, and leaves the draft as it was if it breaks off. -/
theorem run_add (messageId : Int64) (tokens : List Token) (draft : SchemaDraft) :
    (add messageId tokens).run.run draft = become draft (draft.addMessage messageId tokens) := by
  refine run_check fun _ => run_check fun captured => run_check fun reduced =>
    run_check fun measured => ?_
  rw [ExceptT.run_bind, StateT.run_bind, run_collect]
  cases captured.foldlM draft.registerType {} <;> rfl

/-- A call that is done in place leaves the draft after it. -/
theorem run_call (next : DraftCall) (draft : SchemaDraft) :
    ((call next).run.run draft).2 = draft.after next := by
  cases next with
  | configure options identity => rfl
  | add messageId tokens =>
      rw [call, run_add, SchemaDraft.after]
      cases draft.addMessage messageId tokens <;> rfl

theorem session_cons (first : DraftCall) (calls : List DraftCall) (draft : SchemaDraft) :
    (session (first :: calls)).run draft =
      (((call first).run.run draft).1 :: ((session calls).run (draft.after first)).1,
        ((session calls).run (draft.after first)).2) := by
  rw [← run_call, session, List.mapM_cons]
  rfl

/-- The calls of a session that succeed in it. -/
def succeeding (draft : SchemaDraft) (calls : List DraftCall) : List DraftCall :=
  ((calls.zip ((session calls).run draft).1).filter (·.2.isOk)).map (·.1)

/-- A call that fails leaves the draft as it was. -/
theorem after_of_failed {draft : SchemaDraft} {next : DraftCall} {problem : SchemaError}
    (failed : ((call next).run.run draft).1 = .error problem) : draft.after next = draft := by
  cases next with
  | configure options identity => cases failed
  | add messageId tokens =>
      rw [call, run_add] at failed
      rw [SchemaDraft.after]
      cases accepted : draft.addMessage messageId tokens with
      | error reason => rfl
      | ok extended =>
          rw [accepted] at failed
          cases failed

theorem succeeding_of_ok {draft : SchemaDraft} {first : DraftCall} {calls : List DraftCall}
    (succeeds : ((call first).run.run draft).1 = .ok ()) :
    succeeding draft (first :: calls) = first :: succeeding (draft.after first) calls := by
  rw [succeeding, session_cons, succeeds]
  rfl

theorem succeeding_of_error {draft : SchemaDraft} {first : DraftCall} {calls : List DraftCall}
    {problem : SchemaError} (failed : ((call first).run.run draft).1 = .error problem) :
    succeeding draft (first :: calls) = succeeding draft calls := by
  rw [succeeding, session_cons, failed, after_of_failed failed]
  rfl

/-- The calls of a session that succeed come to the same draft alone, and succeed there. -/
theorem session_succeeding (calls : List DraftCall) (draft : SchemaDraft) :
    ((session (succeeding draft calls)).run draft).2 = ((session calls).run draft).2 ∧
      ∀ outcome ∈ ((session (succeeding draft calls)).run draft).1, outcome = .ok () := by
  induction calls generalizing draft with
  | nil => exact ⟨rfl, fun _ member => absurd member List.not_mem_nil⟩
  | cons first calls ih =>
      cases outcome : ((call first).run.run draft).1 with
      | error problem =>
          rw [succeeding_of_error outcome, session_cons first calls, after_of_failed outcome]
          exact ih draft
      | ok _ =>
          obtain ⟨sameDraft, succeed⟩ := ih (draft.after first)
          rw [succeeding_of_ok outcome, session_cons, session_cons, outcome, List.forall_mem_cons]
          exact ⟨sameDraft, rfl, succeed⟩

end Drafting

/-! ### What an addition comes to -/

/-- Adding a message in place is atomic.  If it breaks off, the draft is what it was.  If it
succeeds, the types are those that the rule makes of the old ones and the types of the message, one
after another, the message stands under its number and nothing else has changed.  It succeeds just
when the message passes its own checks and the rule rejects none of its types.  A session comes to
the same draft without the calls that fail in it. -/
theorem SchemaDraft.add_atomic (draft : SchemaDraft) (messageId : Int64) (tokens : List Token) :
    let added := (Drafting.add messageId tokens).run.run draft
    (∀ problem, added.1 = .error problem → added.2 = draft) ∧
      (added.1 = .ok () → ∃ types stored next messages,
        (Addition.mk messageId tokens types).StoredAs stored ∧
        SettlesInTurn draft.options.duplicateTypes draft.types types next ∧
        draft.messages.Put messageId stored messages ∧
        added.2 = { draft with types := next, messages }) ∧
      (∀ types stored, (Addition.mk messageId tokens types).StoredAs stored →
        (added.1 = .ok () ↔
            ∃ next, SettlesInTurn draft.options.duplicateTypes draft.types types next) ∧
          ∀ problem, added.1 = .error problem ↔
            BreaksOff draft.options.duplicateTypes draft.types types problem) ∧
      ∀ calls, ((Drafting.session (Drafting.succeeding draft calls)).run draft).2 =
          ((Drafting.session calls).run draft).2 ∧
        ∀ outcome ∈ ((Drafting.session (Drafting.succeeding draft calls)).run draft).1,
          outcome = .ok () := by
  intro added
  have isAdded : added = Drafting.become draft (draft.addMessage messageId tokens) :=
    Drafting.run_add messageId tokens draft
  rw [isAdded]
  refine ⟨?unchanged, ?changed, ?decided, fun calls => Drafting.session_succeeding calls draft⟩
  case unchanged =>
    intro problem failed
    cases accepted : draft.addMessage messageId tokens with
    | error reason => rfl
    | ok extended =>
        rw [accepted] at failed
        cases failed
  case changed =>
    intro succeeds
    cases accepted : draft.addMessage messageId tokens with
    | error reason =>
        rw [accepted] at succeeds
        cases succeeds
    | ok extended =>
        obtain ⟨types, stored, next, storedAs, settled, rfl⟩ :=
          SchemaDraft.addMessage_settles accepted
        exact ⟨types, stored, next, _, storedAs, settleTypes_eq_ok_iff.mp settled,
          Registry.put_iff.mpr rfl, rfl⟩
  case decided =>
    intro types stored storedAs
    rw [storedAs.addMessage draft]
    simp only [← settleTypes_eq_ok_iff, ← settleTypes_eq_error_iff]
    cases settleTypes draft.options.duplicateTypes draft.types types <;>
      simp [Drafting.become, Except.map]

/-- A quote with a price of some length. -/
def pricedQuote (length : Int32) : List Token :=
  around .message "Quote"
    (around .composite "Price" [{ signal := .encoding, name := "cents", encodedLength := length }])

/-- A draft that allows no conflict, after a quote was added. -/
def quotesDraft : SchemaDraft :=
  ({ emptyDraft with options := { duplicateTypes := .reject } } : SchemaDraft).after
    (.add 1 (pricedQuote 4))

/-- Behind a quote with a price of four bytes, one with a price of eight is refused, and one like
the first is added.  The one that was refused leaves no trace. -/
theorem SchemaDraft.add_atomic_quotes :
    let wide := (Drafting.add 2 (pricedQuote 8)).run.run quotesDraft
    let again := (Drafting.add 2 (pricedQuote 4)).run.run quotesDraft
    wide.1 = .error (.conflictingType "Price") ∧ wide.2 = quotesDraft ∧
      (∃ types stored, (Addition.mk 2 (pricedQuote 8) types).StoredAs stored ∧
        BreaksOff .reject quotesDraft.types types (.conflictingType "Price")) ∧
      again.1 = .ok () ∧
      (∃ types stored next messages, (Addition.mk 2 (pricedQuote 4) types).StoredAs stored ∧
        SettlesInTurn .reject quotesDraft.types types next ∧
        quotesDraft.messages.Put 2 stored messages ∧
        again.2 = { quotesDraft with types := next, messages }) ∧
      ((Drafting.session [.add 2 (pricedQuote 4)]).run quotesDraft).2 =
        ((Drafting.session [.add 2 (pricedQuote 8), .add 2 (pricedQuote 4)]).run
          quotesDraft).2 := by
  intro wide again
  have fails : wide.1 = .error (.conflictingType "Price") := by decide +kernel
  have succeeds : again.1 = .ok () := by decide +kernel
  have rejects : quotesDraft.options.duplicateTypes = .reject := by decide +kernel
  obtain ⟨unchanged, _, decided, sessions⟩ :=
    SchemaDraft.add_atomic quotesDraft 2 (pricedQuote 8)
  obtain ⟨_, changed, _, _⟩ := SchemaDraft.add_atomic quotesDraft 2 (pricedQuote 4)
  have alone : (emptyDraft.addMessage 2 (pricedQuote 8)).toOption.isSome = true := by
    decide +kernel
  obtain ⟨extended, accepted⟩ := exists_ok_of_isSome alone
  obtain ⟨types, stored, _, storedAs, _⟩ := SchemaDraft.addMessage_settles accepted
  have breaks := ((decided types stored storedAs).2 _).mp fails
  have added := changed succeeds
  rw [rejects] at breaks added
  have failed : ((Drafting.call (.add 2 (pricedQuote 8))).run.run quotesDraft).1 =
      .error (.conflictingType "Price") := fails
  have passes : ((Drafting.call (.add 2 (pricedQuote 4))).run.run quotesDraft).1 = .ok () :=
    succeeds
  have kept : Drafting.succeeding quotesDraft [.add 2 (pricedQuote 8), .add 2 (pricedQuote 4)] =
      [.add 2 (pricedQuote 4)] := by
    rw [Drafting.succeeding_of_error failed, Drafting.succeeding_of_ok passes]
    rfl
  refine ⟨fails, unchanged _ fails, ⟨types, stored, storedAs, breaks⟩, succeeds, added, ?_⟩
  rw [← (sessions [.add 2 (pricedQuote 8), .add 2 (pricedQuote 4)]).1, kept]

end WireSchema
