/-
Module: WireSchema.Proofs.EventScopes
Purpose: A reader opens a message, the composites of its fields and the entries of its groups, and
  closes each of them before the one around it.  `Bracketed` says so of the events inside a
  message.  A reader that meets a fault stops at once and closes nothing: `BrokenOff` says of the
  events up to then which constructs are still open.
Main exports: Bracketed, BrokenOff, Walk.Compositional, Walk.Scoped, decode_messageScoped
-/
import WireSchema.Proofs.WalksAlong

namespace WireSchema

/-!
Both are about lists of events alone.  That every walk delivers such events, whatever its tokens
are, follows from how walks are put together (`Walk.Scoped`).
-/

/-! ### Events inside a message -/

/-- Whether the event tells of a value or of the size of a group, and so opens and closes
nothing. -/
def Event.isPlain : Event → Bool
  | .encoding _ _ _ | .enumeration _ _ _ _ | .bitSet _ _ _ | .groupHeader _ _ | .varData _ _ _ =>
    true
  | .beginMessage _ | .endMessage _ | .beginComposite _ _ | .endComposite _ _ |
    .beginGroup _ _ _ | .endGroup _ _ _ => false

/-- The name of the construct that some tokens are. -/
def constructName : List Token → String
  | [] => ""
  | opening :: _ => opening.name

/-- The events that open and close a construct of a name: a composite, or an entry of a group. -/
inductive Event.Encloses : Event → Event → String → Prop where
  | composite (field : Token) (tokens : List Token) :
      Encloses (.beginComposite field tokens) (.endComposite field tokens) (constructName tokens)
  | entry (group : Token) (index count : Nat) :
      Encloses (.beginGroup group index count) (.endGroup group index count) group.name

/-- Events among which every construct that is opened is closed again, and nothing else is. -/
inductive Bracketed : List Event → Prop where
  | nil : Bracketed []
  | plain {event : Event} {rest : List Event} (isPlain : event.isPlain = true)
      (later : Bracketed rest) : Bracketed (event :: rest)
  | construct {opening closing : Event} {name : String} {inner rest : List Event}
      (encloses : opening.Encloses closing name) (inside : Bracketed inner)
      (later : Bracketed rest) : Bracketed (opening :: (inner ++ closing :: rest))

/-- The front of such events, broken off while constructs of some names are open, the outermost
first. -/
inductive BrokenOff : List String → List Event → Prop where
  | here {events : List Event} (bracketed : Bracketed events) : BrokenOff [] events
  | within {opening closing : Event} {name : String} {names : List String}
      {before inner : List Event} (bracketed : Bracketed before)
      (encloses : opening.Encloses closing name) (inside : BrokenOff names inner) :
      BrokenOff (name :: names) (before ++ opening :: inner)

theorem Bracketed.append {first second : List Event} (one : Bracketed first)
    (other : Bracketed second) : Bracketed (first ++ second) := by
  induction one with
  | nil => exact other
  | plain isPlain _ ih => exact .plain isPlain ih
  | construct encloses inside _ _ ih =>
      rw [List.cons_append, List.append_assoc, List.cons_append]
      exact .construct encloses inside ih

theorem BrokenOff.prepend {names : List String} {first second : List Event}
    (one : Bracketed first) (other : BrokenOff names second) :
    BrokenOff names (first ++ second) := by
  cases other with
  | here bracketed => exact .here (one.append bracketed)
  | within bracketed encloses inside =>
      rw [← List.append_assoc]
      exact .within (one.append bracketed) encloses inside

/-- What was broken off can be brought to an end. -/
theorem BrokenOff.completed {names : List String} {events : List Event}
    (brokenOff : BrokenOff names events) : ∃ rest, Bracketed (events ++ rest) := by
  induction brokenOff with
  | here bracketed => exact ⟨[], by rwa [List.append_nil]⟩
  | @within opening closing name names before inner bracketed encloses inside ih =>
      obtain ⟨rest, completed⟩ := ih
      refine ⟨rest ++ [closing], ?_⟩
      have whole := bracketed.append (.construct encloses completed .nil)
      simpa using whole

/-! ### Names of open constructs -/

/-- The names of the open constructs after one more event, the outermost first. -/
def Event.track (names : List String) : Event → List String
  | .beginMessage token | .beginGroup token _ _ => names ++ [token.name]
  | .beginComposite _ tokens => names ++ [constructName tokens]
  | .endMessage _ | .endComposite _ _ | .endGroup _ _ _ => names.dropLast
  | .encoding _ _ _ | .enumeration _ _ _ _ | .bitSet _ _ _ | .groupHeader _ _ | .varData _ _ _ =>
    names

/-- The names of the constructs that some events have opened and not closed, the outermost
first. -/
def openNames (events : List Event) : List String :=
  events.foldl Event.track []

theorem Event.track_plain {event : Event} (isPlain : event.isPlain = true)
    (names : List String) : event.track names = names := by
  cases event <;> first | rfl | cases isPlain

theorem Event.Encloses.track_opening {opening closing : Event} {name : String}
    (encloses : opening.Encloses closing name) (names : List String) :
    opening.track names = names ++ [name] := by
  cases encloses <;> rfl

theorem Event.Encloses.track_closing {opening closing : Event} {name : String}
    (encloses : opening.Encloses closing name) (names : List String) :
    closing.track names = names.dropLast := by
  cases encloses <;> rfl

/-- Bracketed events leave the same constructs open as they found. -/
theorem Bracketed.foldl_track {events : List Event} (bracketed : Bracketed events) :
    ∀ names, events.foldl Event.track names = names := by
  induction bracketed with
  | nil => exact fun _ => rfl
  | plain isPlain _ ih =>
      intro names
      rw [List.foldl_cons, Event.track_plain isPlain, ih]
  | construct encloses _ _ ihInside ihLater =>
      intro names
      rw [List.foldl_cons, List.foldl_append, List.foldl_cons, encloses.track_opening, ihInside,
        encloses.track_closing, List.dropLast_concat, ihLater]

theorem BrokenOff.foldl_track {broken : List String} {events : List Event}
    (brokenOff : BrokenOff broken events) :
    ∀ names, events.foldl Event.track names = names ++ broken := by
  induction brokenOff with
  | here bracketed =>
      intro names
      rw [bracketed.foldl_track, List.append_nil]
  | within bracketed encloses _ ih =>
      intro names
      rw [List.foldl_append, bracketed.foldl_track, List.foldl_cons, encloses.track_opening, ih,
        List.append_assoc, List.singleton_append]

/-! ### What passes from the parts of a walk to the whole -/

/-- A property that the steps of a reader have, and that passes from walks to their sequence and to
what is put around them. -/
structure Walk.Compositional (holds : ∀ {α : Type}, Walk α → Prop) : Prop where
  done : ∀ {α : Type} (result : α), holds (Walk.done result)
  fault : ∀ {α : Type} (cause : AccessError), holds (Walk.check (.error cause) : Walk α)
  tell : ∀ {event : Event}, event.isPlain = true → holds (Walk.emit event)
  bind : ∀ {α β : Type} {walk : Walk α} {next : α → Walk β}, holds walk →
    (∀ result, holds (next result)) → holds (walk >>= next)
  composite : ∀ (field opening : Token) (others : List Token) {inner : Walk Unit}, holds inner →
    holds (Walk.bracket (.beginComposite field (opening :: others))
      (.endComposite field (opening :: others)) opening.name inner)
  entry : ∀ (group : Token) (index count : Nat) {inner : Walk Nat}, holds inner →
    holds (Walk.bracket (.beginGroup group index count) (.endGroup group index count) group.name
      inner)

namespace Walk.Compositional

variable {holds : ∀ {α : Type}, Walk α → Prop} (law : Walk.Compositional holds)
include law

/-- A step that delivers nothing, and a walk that relies on its success. -/
theorem check_bind {α β : Type} {step : Except AccessError α} {next : α → Walk β}
    (behind : ∀ result, step = .ok result → holds (next result)) :
    holds (Walk.check step >>= next) := by
  cases step with
  | error cause => exact law.fault cause
  | ok result => exact behind result rfl

theorem enumeration (source : Source) (field : Token) (range : List Token) (opening : Token)
    (base : Nat) : holds (walkEnum source field range opening base) :=
  law.check_bind fun _ _ => law.tell rfl

/-- The tokens may be any, so that the property is carried along all of them. -/
theorem carriedAlong (source : Source) (tokens : List Token) :
    Walk.CarriedAlong source tokens holds where
  done := law.done
  bind := law.bind
  composite := law.composite
  entry := law.entry
  header group count := law.tell rfl
  varData field content typeToken := law.tell rfl
  fault _ := law.fault _
  leaf := by
    intro field token following base _ _ noComposite
    rw [walkComponent.eq_def]
    simp only
    split
    · exact law.check_bind fun _ _ => law.tell rfl
    · exact law.check_bind fun range _ => law.enumeration source field range token base
    · exact law.check_bind fun _ _ => law.check_bind fun _ _ => law.tell rfl
    · contradiction
    · exact law.done ()

/-- Whatever passes from the parts of a walk to the whole holds of reading a block, its fields,
groups and variable data, along any tokens. -/
theorem block (source : Source) (start blockLength limit : Nat) (tokens : List Token) :
    holds (walkBlock source start blockLength limit tokens) :=
  (law.carriedAlong source tokens).block start blockLength limit tokens List.suffix_rfl

end Walk.Compositional

/-! ### Walks with bracketed events -/

/-- The events of a walk are bracketed, or else broken off inside the constructs that its fault
names. -/
def Walk.Scoped {α : Type} (walk : Walk α) : Prop :=
  match walk.outcome with
  | .ok _ => Bracketed walk.events
  | .error problem => BrokenOff problem.scope walk.events

namespace Walk.Scoped

variable {α β : Type}

theorem done (result : α) : (Walk.done result).Scoped :=
  .nil

theorem emit {event : Event} (isPlain : event.isPlain = true) : (Walk.emit event).Scoped :=
  .plain isPlain .nil

theorem bind {walk : Walk α} {next : α → Walk β} (first : walk.Scoped)
    (second : ∀ result, (next result).Scoped) : (walk >>= next).Scoped := by
  obtain ⟨events, outcome⟩ := walk
  cases outcome with
  | error problem => exact first
  | ok result =>
      have behind := second result
      rw [Walk.ok_bind]
      rw [Walk.Scoped] at behind ⊢
      cases outcome : (next result).outcome with
      | ok last =>
          rw [outcome] at behind
          exact Bracketed.append first behind
      | error problem =>
          rw [outcome] at behind
          exact BrokenOff.prepend first behind

theorem bracket {opening closing : Event} {name : String}
    (encloses : opening.Encloses closing name) {inner : Walk α} (inside : inner.Scoped) :
    (Walk.bracket opening closing name inner).Scoped := by
  obtain ⟨events, outcome⟩ := inner
  cases outcome with
  | ok result => exact .construct encloses inside .nil
  | error problem => exact .within .nil encloses inside

/-- Being scoped passes from the parts of a walk to the whole. -/
theorem compositional : Walk.Compositional @Walk.Scoped where
  done := done
  fault _ := .here .nil
  tell := emit
  bind := bind
  composite field opening others := bracket (.composite field (opening :: others))
  entry group index count := bracket (.entry group index count)

end Walk.Scoped

theorem walkBlock_scoped (source : Source) (start blockLength limit : Nat) (tokens : List Token) :
    (walkBlock source start blockLength limit tokens).Scoped :=
  Walk.Scoped.compositional.block source start blockLength limit tokens

/-! ### The events of a message -/

/-- All events of a message: its beginning and its end, and bracketed events between them. -/
def MessageEvents (events : List Event) : Prop :=
  ∃ opening closing inner, Bracketed inner ∧
    events = .beginMessage opening :: (inner ++ [.endMessage closing])

/-- Bracketed events inside a message are all of its events, or the front of them. -/
theorem MessageEvents.of_brokenOff {names : List String} {events : List Event} (opening : Token)
    (brokenOff : BrokenOff names events) :
    (∃ rest, MessageEvents (.beginMessage opening :: (events ++ rest))) ∧
      openNames (.beginMessage opening :: events) = opening.name :: names := by
  obtain ⟨rest, completed⟩ := brokenOff.completed
  constructor
  · refine ⟨rest ++ [.endMessage opening], opening, opening, events ++ rest, completed, ?_⟩
    rw [List.append_assoc]
  · rw [openNames, List.foldl_cons, brokenOff.foldl_track]
    rfl

/-- What is said of the events of a walk that reads a message: they are all of its events, or the
front of them if there is a fault, whose path then leads through the constructs that these events
have opened and not closed. -/
def Walk.MessageScoped (walk : Walk Nat) : Prop :=
  match walk.outcome with
  | .ok _ => MessageEvents walk.events
  | .error problem =>
    (∃ rest, MessageEvents (walk.events ++ rest)) ∧
      problem.path = ".".intercalate (openNames walk.events)

/-- A fault before anything was read. -/
theorem Walk.MessageScoped.unread (cause : AccessError) :
    (Walk.check (.error cause)).MessageScoped :=
  ⟨⟨[.beginMessage default, .endMessage default], default, default, [], .nil, rfl⟩, rfl⟩

/-- A walk inside the events that open and close a message. -/
theorem Walk.Scoped.message {inner : Walk Nat} (inside : inner.Scoped) (opening closing : Token) :
    (Walk.bracket (.beginMessage opening) (.endMessage closing) opening.name
      inner).MessageScoped := by
  obtain ⟨events, outcome⟩ := inner
  cases outcome with
  | ok result => exact ⟨opening, closing, events, inside, rfl⟩
  | error problem =>
      obtain ⟨completed, isOpen⟩ := MessageEvents.of_brokenOff opening inside
      exact ⟨completed, congrArg (".".intercalate ·) isOpen.symm⟩

/-- Whatever the tokens of a message are, its events are bracketed inside the message, all of them
if the message can be read.  A fault comes after the front of such events, and its path leads
through the constructs that they have opened and not closed. -/
theorem decode_messageScoped (buffer : Buffer) (offset : Nat) (actingVersion : Int32)
    (blockLength : Nat) (tokens : List Token) :
    (decode buffer offset actingVersion blockLength tokens).MessageScoped := by
  rw [decode, walkMessage.eq_def]
  cases tokens with
  | nil => exact .unread _
  | cons opening following =>
      simp only
      split
      · exact .unread _
      · rename_i closing _
        split
        · exact (walkBlock_scoped _ offset blockLength _ following).message opening closing
        · exact .unread _

end WireSchema
