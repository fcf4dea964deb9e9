/-
Module: WireSchema.Proofs.WalkLaws
Purpose: Walks in sequence form a monad.  `Walk.inTurn` is the plain recursion that `Walk.iterate`
  carries out with the events of earlier rounds at hand.
Main exports: Walk.inTurn, Walk.mapEvents, Walk.Omits, Walk.Follows
-/
import WireSchema.Decoding.Walk

namespace WireSchema.Walk

variable {α β γ σ : Type}

theorem ok_bind (events : List Event) (result : α) (next : α → Walk β) :
    Walk.mk events (.ok result) >>= next =
      ⟨events ++ (next result).events, (next result).outcome⟩ :=
  rfl

@[simp] theorem error_bind (events : List Event) (problem : ScopedError) (next : α → Walk β) :
    Walk.mk events (.error problem) >>= next = ⟨events, .error problem⟩ :=
  rfl

@[simp] theorem done_bind (result : α) (next : α → Walk β) :
    Walk.done result >>= next = next result :=
  rfl

@[simp] theorem check_ok_bind (result : α) (next : α → Walk β) :
    Walk.check (.ok result) >>= next = next result :=
  rfl

theorem check_map_bind (step : Except AccessError α) (change : α → β) (next : β → Walk γ) :
    check (step.map change) >>= next = check step >>= fun result => next (change result) := by
  cases step <;> rfl

theorem bind_assoc (walk : Walk α) (next : α → Walk β) (last : β → Walk γ) :
    walk >>= next >>= last = walk >>= fun result => next result >>= last := by
  obtain ⟨events, outcome⟩ := walk
  cases outcome with
  | error problem => rfl
  | ok result =>
      rw [ok_bind, ok_bind]
      obtain ⟨nextEvents, nextOutcome⟩ := next result
      cases nextOutcome with
      | error problem => rfl
      | ok nextResult =>
          rw [ok_bind, ok_bind]
          simp only [List.append_assoc]

/-! ### Walks that end well -/

/-- Walks in sequence end well only where both do. -/
theorem ok_of_bind {walk : Walk α} {next : α → Walk β} {last : β}
    (succeeds : (walk >>= next).outcome = .ok last) :
    ∃ result, walk.outcome = .ok result ∧ (next result).outcome = .ok last := by
  obtain ⟨events, outcome⟩ := walk
  cases outcome with
  | error problem => cases succeeds
  | ok result => exact ⟨result, rfl, succeeds⟩

theorem ok_of_check {step : Except AccessError α} {result : α}
    (succeeds : (check step).outcome = .ok result) : step = .ok result := by
  cases step with
  | error problem => cases succeeds
  | ok found =>
      cases succeeds
      rfl

theorem ok_of_bracket {opening closing : Event} {name : String} {inner : Walk α} {result : α}
    (succeeds : (bracket opening closing name inner).outcome = .ok result) :
    inner.outcome = .ok result := by
  obtain ⟨events, outcome⟩ := inner
  cases outcome with
  | error problem => cases succeeds
  | ok found => exact succeeds

/-! ### Events of walks -/

/-- An event of walks in sequence is one of the first, or of what comes behind its result. -/
theorem mem_events_bind {walk : Walk α} {next : α → Walk β} {event : Event} :
    event ∈ (walk >>= next).events ↔ event ∈ walk.events ∨
      ∃ result, walk.outcome = .ok result ∧ event ∈ (next result).events := by
  obtain ⟨events, outcome⟩ := walk
  cases outcome with
  | error problem => simp
  | ok result => rw [ok_bind, List.mem_append]; simp

theorem mem_events_check_bind {step : Except AccessError α} {next : α → Walk β} {event : Event} :
    event ∈ (check step >>= next).events ↔
      ∃ result, step = .ok result ∧ event ∈ (next result).events := by
  cases step with
  | error problem => exact ⟨fun member => (nomatch member), fun ⟨_, isOk, _⟩ => (nomatch isOk)⟩
  | ok result => simp

theorem mem_events_emit {event other : Event} : event ∈ (emit other).events ↔ event = other :=
  List.mem_singleton

theorem mem_events_bracket {opening closing event : Event} {name : String} {inner : Walk α}
    (member : event ∈ (bracket opening closing name inner).events) :
    event = opening ∨ event ∈ inner.events ∨ event = closing := by
  obtain ⟨events, outcome⟩ := inner
  cases outcome with
  | error problem => simpa [bracket] using List.mem_cons.mp member |>.imp_right .inl
  | ok result => simpa [bracket] using member

/-! ### Rounds -/

/-- Walks one after another from an index on, each from the state that the one before it left. -/
def inTurn (step : Nat → σ → Walk σ) (index : Nat) : (count : Nat) → σ → Walk σ
  | 0, state => done state
  | count + 1, state => do
    let next ← step index state
    inTurn step (index + 1) count next

/-- The events of earlier rounds stand in front of those of the rounds to come. -/
theorem rounds_eq (step : Nat → σ → Walk σ) (count : Nat) :
    ∀ (earlier : List (List Event)) (index : Nat) (state : σ),
      rounds step earlier index count state =
        ⟨earlier.reverse.flatten ++ (inTurn step index count state).events,
          (inTurn step index count state).outcome⟩ := by
  induction count with
  | zero =>
      intro earlier index state
      rw [rounds, inTurn, done, List.append_nil]
  | succ count ih =>
      intro earlier index state
      rw [rounds, inTurn]
      rcases round : step index state with ⟨events, outcome⟩
      cases outcome with
      | error problem => simp
      | ok next =>
          rw [ok_bind]
          simp [ih]

theorem iterate_eq_inTurn (step : Nat → σ → Walk σ) (count : Nat) (state : σ) :
    iterate count step state = inTurn step 0 count state := by
  rw [iterate, rounds_eq]
  rfl

/-! ### Changed events -/

/-- The walk with every event changed. -/
def mapEvents (change : Event → Event) (walk : Walk α) : Walk α :=
  ⟨walk.events.map change, walk.outcome⟩

@[simp] theorem outcome_mapEvents (change : Event → Event) (walk : Walk α) :
    (walk.mapEvents change).outcome = walk.outcome :=
  rfl

theorem mapEvents_check (change : Event → Event) (step : Except AccessError α) :
    (check step).mapEvents change = check step :=
  rfl

theorem mapEvents_bind (change : Event → Event) (walk : Walk α) (next : α → Walk β) :
    (walk >>= next).mapEvents change =
      walk.mapEvents change >>= fun result => (next result).mapEvents change := by
  obtain ⟨events, outcome⟩ := walk
  cases outcome with
  | error problem => rfl
  | ok result =>
      rw [ok_bind, mapEvents, mapEvents, ok_bind, List.map_append]
      rfl

theorem mapEvents_bracket (change : Event → Event) (opening closing : Event) (name : String)
    (inner : Walk α) :
    (bracket opening closing name inner).mapEvents change =
      bracket (change opening) (change closing) name (inner.mapEvents change) := by
  obtain ⟨events, outcome⟩ := inner
  cases outcome with
  | error problem => rfl
  | ok result =>
      rw [bracket, bracket, mapEvents, List.map_cons, List.map_append]
      rfl

theorem mapEvents_inTurn (change : Event → Event) (step : Nat → σ → Walk σ) (count : Nat) :
    ∀ (index : Nat) (state : σ),
      (inTurn step index count state).mapEvents change =
        inTurn (fun index state => (step index state).mapEvents change) index count state := by
  induction count with
  | zero =>
      intro index state
      rfl
  | succ count ih =>
      intro index state
      rw [inTurn, inTurn, mapEvents_bind]
      simp only [ih]

/-! ### Events left out -/

/-- The first walk is the second one with some events left out; both end alike. -/
structure Omits (fewer more : Walk α) : Prop where
  outcome : fewer.outcome = more.outcome
  events : fewer.events.Sublist more.events

theorem Omits.refl (walk : Walk α) : Omits walk walk :=
  ⟨rfl, .refl _⟩

theorem Omits.bind {fewer more : Walk α} (first : Omits fewer more) {next nextMore : α → Walk β}
    (second : ∀ result, Omits (next result) (nextMore result)) :
    Omits (fewer >>= next) (more >>= nextMore) := by
  obtain ⟨fewerEvents, outcome⟩ := fewer
  obtain ⟨moreEvents, moreOutcome⟩ := more
  obtain ⟨sameOutcome, omitted⟩ := first
  cases sameOutcome
  cases outcome with
  | error problem => exact ⟨rfl, omitted⟩
  | ok result =>
      rw [ok_bind, ok_bind]
      exact ⟨(second result).outcome, omitted.append (second result).events⟩

theorem Omits.bracket {fewer more : Walk α} (inside : Omits fewer more) (opening closing : Event)
    (name : String) :
    Omits (bracket opening closing name fewer) (bracket opening closing name more) := by
  obtain ⟨fewerEvents, outcome⟩ := fewer
  obtain ⟨moreEvents, moreOutcome⟩ := more
  obtain ⟨sameOutcome, omitted⟩ := inside
  cases sameOutcome
  cases outcome with
  | error problem => exact ⟨rfl, omitted.cons_cons opening⟩
  | ok result => exact ⟨rfl, (omitted.append (.refl [closing])).cons_cons opening⟩

theorem Omits.inTurn {step stepMore : Nat → σ → Walk σ}
    (each : ∀ index state, Omits (step index state) (stepMore index state)) (count : Nat) :
    ∀ (index : Nat) (state : σ),
      Omits (inTurn step index count state) (inTurn stepMore index count state) := by
  induction count with
  | zero =>
      intro index state
      exact .refl _
  | succ count ih =>
      intro index state
      exact (each index state).bind fun next => ih (index + 1) next

theorem Omits.mapEvents {fewer more : Walk α} (omits : Omits fewer more)
    (change : Event → Event) : Omits (fewer.mapEvents change) (more.mapEvents change) :=
  ⟨omits.outcome, omits.events.map change⟩

/-! ### Walks that need not fail -/

/-- If the second walk ends well, the first one is the same. -/
def Follows (walk full : Walk α) : Prop :=
  ∀ result, full.outcome = .ok result → walk = full

theorem Follows.refl (walk : Walk α) : Follows walk walk :=
  fun _ _ => rfl

theorem Follows.bind {walk full : Walk α} (first : Follows walk full) {next nextFull : α → Walk β}
    (second : ∀ result, Follows (next result) (nextFull result)) :
    Follows (walk >>= next) (full >>= nextFull) := by
  intro last succeeds
  obtain ⟨result, isResult, isLast⟩ := ok_of_bind succeeds
  obtain ⟨events, outcome⟩ := full
  cases isResult
  rw [first result rfl, ok_bind, ok_bind, second result last isLast]

theorem Follows.bracket {walk full : Walk α} (inside : Follows walk full) (opening closing : Event)
    (name : String) :
    Follows (bracket opening closing name walk) (bracket opening closing name full) := by
  intro result succeeds
  rw [inside result (ok_of_bracket succeeds)]

theorem Follows.inTurn {step stepFull : Nat → σ → Walk σ}
    (each : ∀ index state, Follows (step index state) (stepFull index state)) (count : Nat) :
    ∀ (index : Nat) (state : σ),
      Follows (inTurn step index count state) (inTurn stepFull index count state) := by
  induction count with
  | zero =>
      intro index state
      exact .refl _
  | succ count ih =>
      intro index state
      exact (each index state).bind fun next => ih (index + 1) next

theorem Follows.mapEvents {walk full : Walk α} (follows : Follows walk full)
    (change : Event → Event) : Follows (walk.mapEvents change) (full.mapEvents change) :=
  fun result succeeds => by rw [follows result succeeds]

end WireSchema.Walk
