/-
Module: WireSchema.Proofs.SharedPrintout
Purpose: A printout that takes up message after message keeps its own account of what is open: the
  names that stand in front of every line, and how many composites are among them.  It is told of
  both by the events alone.
Main exports: Event.stack, OpenAfter, Printout.behind, Printout.printAll_shared
-/
import WireSchema.Decoding.Printout
import WireSchema.Proofs.EventScopes

namespace WireSchema

/-!
A message that is read to its end leaves that account as it was, whatever it was.  A message that
stops at a fault adds the constructs that it has opened and not closed, those that the path of the
fault leads through (`OpenAfter`).  So the account of a printout says which messages failed, and as
long as none did, every message is printed as it would be by itself (`Printout.printAll_shared`).
-/

/-! ### Constructs that are open -/

/-- Whether the event opens a construct. -/
def Event.isOpening : Event → Bool
  | .beginMessage _ | .beginComposite _ _ | .beginGroup _ _ _ => true
  | _ => false

/-- Whether the event opens a composite. -/
def Event.opensComposite : Event → Bool
  | .beginComposite _ _ => true
  | _ => false

/-- The name of the construct that the event opens. -/
def Event.openedName : Event → String
  | .beginMessage token | .beginGroup token _ _ => token.name
  | .beginComposite _ tokens => constructName tokens
  | _ => ""

/-- The constructs that are open after one more event, as the events that opened them, the
outermost first. -/
def Event.stack (opened : List Event) (event : Event) : List Event :=
  if event.isOpening then opened ++ [event]
  else if event.isPlain then opened
  else opened.dropLast

/-- The constructs that some events have opened and not closed, as the events that opened them, the
outermost first. -/
def openConstructs (events : List Event) : List Event :=
  events.foldl Event.stack []

/-- How many of the open constructs are composites. -/
def openComposites (opened : List Event) : Nat :=
  opened.countP Event.opensComposite

/-- What a printout keeps of open constructs, given how many composites were open before: their
names, but for a composite inside no other one the name of its field. -/
def scopeEntries (level : Nat) : List Event → List String
  | [] => []
  | .beginComposite field tokens :: inner =>
    ((if level = 0 then field.name else constructName tokens) ++ ".") ::
      scopeEntries (level + 1) inner
  | opening :: inner => (opening.openedName ++ ".") :: scopeEntries level inner

/-! ### What events leave open -/

/-- Some events leave these constructs open, and a printout that is told of the events keeps one
entry for each of them and counts the composites. -/
structure OpenAfter (events opened : List Event) : Prop where
  stack : ∀ before, events.foldl Event.stack before = before ++ opened
  scope : ∀ printout : Printout, (printout.recordAll events).scope =
    printout.scope ++ scopeEntries printout.compositeLevel opened
  level : ∀ printout : Printout, (printout.recordAll events).compositeLevel =
    printout.compositeLevel + openComposites opened

/-- An event that opens a construct: no composite is without tokens. -/
inductive Event.Opens : Event → Prop where
  | message (token : Token) : Opens (.beginMessage token)
  | composite (field opening : Token) (others : List Token) :
      Opens (.beginComposite field (opening :: others))
  | entry (group : Token) (index count : Nat) : Opens (.beginGroup group index count)

/-- An event that closes what another one has opened. -/
inductive Event.Closes : Event → Event → Prop where
  | message (token last : Token) : Closes (.endMessage last) (.beginMessage token)
  | composite (field opening : Token) (others : List Token) :
      Closes (.endComposite field (opening :: others)) (.beginComposite field (opening :: others))
  | entry (group : Token) (index count : Nat) :
      Closes (.endGroup group index count) (.beginGroup group index count)

theorem Event.Closes.opens {closing opening : Event} (closes : closing.Closes opening) :
    opening.Opens := by
  cases closes
  · exact .message _
  · exact .composite _ _ _
  · exact .entry _ _ _

namespace Printout

theorem recordAll_cons (printout : Printout) (event : Event) (events : List Event) :
    printout.recordAll (event :: events) = (printout.record event).recordAll events :=
  rfl

theorem recordAll_append (printout : Printout) (first second : List Event) :
    printout.recordAll (first ++ second) = (printout.recordAll first).recordAll second :=
  List.foldl_append

/-- A line changes neither the open constructs nor their count. -/
theorem record_plain {event : Event} (isPlain : event.isPlain = true) (printout : Printout) :
    (printout.record event).scope = printout.scope ∧
      (printout.record event).compositeLevel = printout.compositeLevel := by
  cases event with
  | varData field content typeToken =>
      simp only [record]
      split
      · exact ⟨rfl, rfl⟩
      · exact ⟨rfl, rfl⟩
  | encoding | enumeration | bitSet | groupHeader => exact ⟨rfl, rfl⟩
  | _ => cases isPlain

theorem record_opening {opening : Event} (opens : opening.Opens) (printout : Printout) :
    (printout.record opening).scope =
        printout.scope ++ scopeEntries printout.compositeLevel [opening] ∧
      (printout.record opening).compositeLevel =
        printout.compositeLevel + openComposites [opening] := by
  cases opens with
  | message token => exact ⟨rfl, rfl⟩
  | entry group index count => exact ⟨rfl, rfl⟩
  | composite field opening others =>
      constructor
      · simp only [record, enter, nameOf, scopeEntries, constructName]
        by_cases outermost : printout.compositeLevel = 0
        · simp [outermost]
        · simp [outermost, Nat.pos_of_ne_zero outermost]
      · rfl

/-- What is closed is the latest entry. -/
theorem record_closing {closing opening : Event} (closes : closing.Closes opening)
    (printout : Printout) :
    (printout.record closing).scope = printout.scope.dropLast ∧
      (printout.record closing).compositeLevel =
        printout.compositeLevel - openComposites [opening] := by
  cases closes
  · exact ⟨rfl, rfl⟩
  · exact ⟨rfl, rfl⟩
  · exact ⟨rfl, rfl⟩

end Printout

theorem scopeEntries_cons {opening : Event} (opens : opening.Opens) (level : Nat)
    (inner : List Event) :
    scopeEntries level (opening :: inner) =
      scopeEntries level [opening] ++
        scopeEntries (level + openComposites [opening]) inner := by
  cases opens
  · rfl
  · rfl
  · rfl

theorem length_scopeEntries_singleton {opening : Event} (opens : opening.Opens) (level : Nat) :
    ∃ entry, scopeEntries level [opening] = [entry] := by
  cases opens
  · exact ⟨_, rfl⟩
  · exact ⟨_, rfl⟩
  · exact ⟨_, rfl⟩

namespace OpenAfter

variable {first second events opened : List Event}

theorem nil : OpenAfter [] [] where
  stack before := (List.append_nil before).symm
  scope printout := (List.append_nil printout.scope).symm
  level _ := rfl

theorem plain {event : Event} (isPlain : event.isPlain = true) : OpenAfter [event] [] where
  stack before := by
    have noOpening : event.isOpening = false := by
      cases event <;> first | rfl | cases isPlain
    simp [Event.stack, noOpening, isPlain]
  scope printout := by
    rw [scopeEntries, List.append_nil]
    exact (Printout.record_plain isPlain printout).1
  level printout := (Printout.record_plain isPlain printout).2

/-- Events behind others that leave nothing open. -/
theorem append (one : OpenAfter first []) (other : OpenAfter second opened) :
    OpenAfter (first ++ second) opened where
  stack before := by
    rw [List.foldl_append, one.stack, List.append_nil, other.stack]
  scope printout := by
    have sameScope := one.scope printout
    have sameLevel := one.level printout
    rw [scopeEntries, List.append_nil] at sameScope
    rw [Printout.recordAll_append, other.scope, sameScope, sameLevel]
    rfl
  level printout := by
    rw [Printout.recordAll_append, other.level, one.level]
    rfl

/-- A construct that is opened stays open as long as it is not closed. -/
theorem within {opening : Event} (opens : opening.Opens) (inside : OpenAfter events opened) :
    OpenAfter (opening :: events) (opening :: opened) where
  stack before := by
    have isOpening : opening.isOpening = true := by
      cases opens <;> rfl
    rw [List.foldl_cons, Event.stack, if_pos isOpening, inside.stack, List.append_assoc]
    rfl
  scope printout := by
    obtain ⟨scope, level⟩ := Printout.record_opening opens printout
    rw [Printout.recordAll_cons, inside.scope, scope, level, List.append_assoc,
      ← scopeEntries_cons opens]
  level printout := by
    rw [Printout.recordAll_cons, inside.level, (Printout.record_opening opens printout).2,
      Nat.add_assoc, openComposites, openComposites, openComposites, ← List.countP_append,
      List.singleton_append]

/-- A construct that is opened and closed again. -/
theorem closed {opening closing : Event} (closes : closing.Closes opening)
    (inside : OpenAfter events []) : OpenAfter (opening :: (events ++ [closing])) [] where
  stack before := by
    have isClosing : closing.isOpening = false ∧ closing.isPlain = false := by
      cases closes <;> exact ⟨rfl, rfl⟩
    have upToClosing := (inside.within closes.opens).stack before
    rw [← List.cons_append, List.foldl_append, upToClosing, List.foldl_cons, List.foldl_nil,
      Event.stack, isClosing.1, isClosing.2]
    simp
  scope printout := by
    obtain ⟨entry, isEntry⟩ := length_scopeEntries_singleton closes.opens printout.compositeLevel
    have upToClosing := (inside.within closes.opens).scope printout
    rw [isEntry] at upToClosing
    rw [← List.cons_append, Printout.recordAll_append]
    refine (Printout.record_closing closes _).1.trans ?_
    rw [upToClosing, List.dropLast_concat, scopeEntries, List.append_nil]
  level printout := by
    have upToClosing := (inside.within closes.opens).level printout
    rw [← List.cons_append, Printout.recordAll_append]
    refine (Printout.record_closing closes _).2.trans ?_
    rw [upToClosing, Nat.add_sub_cancel]
    rfl

end OpenAfter

/-! ### What walks leave open -/

/-- A walk that ends well leaves nothing open, and one that fails the constructs that its fault
names. -/
def Walk.LeavesOpen {α : Type} (walk : Walk α) : Prop :=
  match walk.outcome with
  | .ok _ => OpenAfter walk.events []
  | .error problem =>
    ∃ opened, OpenAfter walk.events opened ∧ opened.map Event.openedName = problem.scope

namespace Walk.LeavesOpen

variable {α β : Type}

theorem bind {walk : Walk α} {next : α → Walk β} (first : walk.LeavesOpen)
    (second : ∀ result, (next result).LeavesOpen) : (walk >>= next).LeavesOpen := by
  obtain ⟨events, outcome⟩ := walk
  cases outcome with
  | error problem => exact first
  | ok result =>
      have behind := second result
      rw [Walk.ok_bind]
      rw [Walk.LeavesOpen] at behind ⊢
      cases outcome : (next result).outcome with
      | ok last =>
          rw [outcome] at behind
          exact OpenAfter.append first behind
      | error problem =>
          rw [outcome] at behind
          obtain ⟨opened, isOpen, named⟩ := behind
          exact ⟨opened, OpenAfter.append first isOpen, named⟩

theorem bracket {opening closing : Event} (closes : closing.Closes opening) {inner : Walk α}
    (inside : inner.LeavesOpen) :
    (Walk.bracket opening closing opening.openedName inner).LeavesOpen := by
  obtain ⟨events, outcome⟩ := inner
  cases outcome with
  | ok result => exact OpenAfter.closed closes inside
  | error problem =>
      obtain ⟨opened, isOpen, named⟩ := inside
      refine ⟨opening :: opened, isOpen.within closes.opens, ?_⟩
      rw [List.map_cons, named]
      rfl

theorem compositional : Walk.Compositional @Walk.LeavesOpen where
  done _ := OpenAfter.nil
  fault _ := ⟨[], .nil, rfl⟩
  tell isPlain := OpenAfter.plain isPlain
  bind := bind
  composite field opening others := bracket (.composite field opening others)
  entry group index count := bracket (.entry group index count)

end Walk.LeavesOpen

theorem decode_leavesOpen (buffer : Buffer) (offset : Nat) (actingVersion : Int32)
    (blockLength : Nat) (tokens : List Token) :
    (decode buffer offset actingVersion blockLength tokens).LeavesOpen := by
  have unread (cause : AccessError) : (Walk.check (.error cause) : Walk Nat).LeavesOpen :=
    ⟨[], .nil, rfl⟩
  rw [decode, walkMessage.eq_def]
  cases tokens with
  | nil => exact unread _
  | cons opening following =>
      simp only
      split
      · exact unread _
      · rename_i closing _
        split
        · exact .bracket (.message opening closing)
            (Walk.LeavesOpen.compositional.block _ offset blockLength _ following)
        · exact unread _

/-! ### What is printed does not depend on what was printed before -/

namespace Printout

/-- The printout behind what an earlier one has printed and refused. -/
def behind (printout earlier : Printout) : Printout :=
  { printout with
    text := earlier.text ++ printout.text
    errors := earlier.errors ++ printout.errors }

theorem foldl_append_text (scope : List String) (earlier text : String) :
    scope.foldl String.append (earlier ++ text) = earlier ++ scope.foldl String.append text := by
  induction scope generalizing text with
  | nil => rfl
  | cons name inner ih =>
      have joined : (earlier ++ text).append name = earlier ++ text.append name :=
        String.append_assoc
      rw [List.foldl_cons, List.foldl_cons, joined, ih]

theorem write_behind (printout earlier : Printout) (content : String) :
    (printout.behind earlier).write content = (printout.write content).behind earlier := by
  simp only [write, behind, foldl_append_text, String.append_assoc]

theorem record_behind (printout earlier : Printout) (event : Event) :
    (printout.behind earlier).record event = (printout.record event).behind earlier := by
  cases event with
  | encoding => exact write_behind printout earlier _
  | enumeration => exact write_behind printout earlier _
  | bitSet => exact write_behind printout earlier _
  | groupHeader => exact write_behind printout earlier _
  | varData field content typeToken =>
      simp only [record]
      split
      · exact write_behind printout earlier _
      · simp only [behind, List.append_assoc]
  | beginMessage | endMessage | beginComposite | endComposite | beginGroup | endGroup => rfl

theorem recordAll_behind (events : List Event) (printout earlier : Printout) :
    (printout.behind earlier).recordAll events = (printout.recordAll events).behind earlier := by
  induction events generalizing printout with
  | nil => rfl
  | cons event events ih =>
      rw [recordAll_cons, recordAll_cons, record_behind, ih]

end Printout

/-! ### Messages one after another -/

/-- A message in a buffer, with what its sender told of it and the tokens to read it along. -/
structure WireMessage where
  tokens : List Token
  buffer : Buffer
  offset : Nat
  actingVersion : Int32
  blockLength : Nat

/-- The reading of a message. -/
def WireMessage.walk (message : WireMessage) : Walk Nat :=
  decode message.buffer message.offset message.actingVersion message.blockLength message.tokens

namespace Printout

/-- The printout after one more message. -/
def print (printout : Printout) (message : WireMessage) : Printout :=
  printout.recordAll message.walk.events

/-- The printout after some messages in turn. -/
def printAll (printout : Printout) (messages : List WireMessage) : Printout :=
  messages.foldl print printout

/-- A message that is read to its end leaves open what it found open. -/
theorem print_of_ok {message : WireMessage} {position : Nat}
    (succeeds : message.walk.outcome = .ok position) (printout : Printout) :
    (printout.print message).scope = printout.scope ∧
      (printout.print message).compositeLevel = printout.compositeLevel := by
  have leavesOpen : message.walk.LeavesOpen := decode_leavesOpen ..
  rw [Walk.LeavesOpen, succeeds] at leavesOpen
  have scope := leavesOpen.scope printout
  rw [scopeEntries, List.append_nil] at scope
  exact ⟨scope, leavesOpen.level printout⟩

/-- So do any number of such messages. -/
theorem printAll_of_ok {messages : List WireMessage}
    (succeed : ∀ message ∈ messages, ∃ position, message.walk.outcome = .ok position)
    (printout : Printout) :
    (printout.printAll messages).scope = printout.scope ∧
      (printout.printAll messages).compositeLevel = printout.compositeLevel := by
  induction messages generalizing printout with
  | nil => exact ⟨rfl, rfl⟩
  | cons message others ih =>
      obtain ⟨position, succeeds⟩ := succeed message List.mem_cons_self
      obtain ⟨scope, level⟩ := print_of_ok succeeds printout
      have later := ih (fun other member => succeed other (List.mem_cons_of_mem _ member))
        (printout.print message)
      exact ⟨later.1.trans scope, later.2.trans level⟩

/-- A message that fails leaves open, besides, the constructs that the path of its fault leads
through. -/
theorem print_of_error {message : WireMessage} {problem : ScopedError}
    (fails : message.walk.outcome = .error problem) (printout : Printout) :
    (openConstructs message.walk.events).map Event.openedName = problem.scope ∧
      (printout.print message).scope = printout.scope ++
        scopeEntries printout.compositeLevel (openConstructs message.walk.events) ∧
      (printout.print message).compositeLevel = printout.compositeLevel +
        openComposites (openConstructs message.walk.events) := by
  have leavesOpen : message.walk.LeavesOpen := decode_leavesOpen ..
  rw [Walk.LeavesOpen, fails] at leavesOpen
  obtain ⟨opened, isOpen, named⟩ := leavesOpen
  have isOpened : openConstructs message.walk.events = opened := isOpen.stack []
  rw [isOpened]
  exact ⟨named, isOpen.scope printout, isOpen.level printout⟩

/-- A printout without open constructs adds what a fresh one would print. -/
theorem print_eq_behind {printout : Printout} (noScope : printout.scope = [])
    (noLevel : printout.compositeLevel = 0) (message : WireMessage) :
    printout.print message = (({} : Printout).print message).behind printout := by
  have isBehind : printout = ({} : Printout).behind printout := by
    obtain ⟨text, scope, level, errors⟩ := printout
    cases noScope
    cases noLevel
    simp [behind]
  rw [print, print, ← recordAll_behind, ← isBehind]

/-- Whatever messages a printout has taken up before, one more leaves its account of open constructs
as it found it if it is read to its end.  If it fails, the account gains the constructs that the
events have opened and not closed, which are those on the path of the fault.  And if all messages
before were read to their ends, starting from a printout without open constructs, the text and the
refused texts that this one adds are those of a fresh printout. -/
theorem printAll_shared (start : Printout) (before : List WireMessage) (message : WireMessage) :
    let found := start.printAll before
    let left := found.print message
    (∀ position, message.walk.outcome = .ok position →
      left.scope = found.scope ∧ left.compositeLevel = found.compositeLevel) ∧
    (∀ problem, message.walk.outcome = .error problem →
      let opened := openConstructs message.walk.events
      opened.map Event.openedName = problem.scope ∧
        left.scope = found.scope ++ scopeEntries found.compositeLevel opened ∧
        left.compositeLevel = found.compositeLevel + openComposites opened) ∧
    ((∀ earlier ∈ before, ∃ position, earlier.walk.outcome = .ok position) →
      start.scope = [] → start.compositeLevel = 0 →
        let fresh := ({} : Printout).print message
        left.text = found.text ++ fresh.text ∧ left.errors = found.errors ++ fresh.errors) := by
  intro found left
  refine ⟨fun position succeeds => print_of_ok succeeds found,
    fun problem fails => print_of_error fails found, fun succeed noScope noLevel => ?_⟩
  obtain ⟨scope, level⟩ := printAll_of_ok succeed start
  have added : left = (({} : Printout).print message).behind found :=
    print_eq_behind (scope.trans noScope) (level.trans noLevel) message
  rw [added]
  exact ⟨rfl, rfl⟩

end Printout

/-- A parcel that is cut off inside its box. -/
def cutParcel : WireMessage where
  tokens :=
    [{ signal := .beginMessage, name := "Parcel" },
      { signal := .beginField, name := "content", storedSpan := 5 },
      { signal := .beginComposite, name := "Box", storedSpan := 3 },
      { signal := .encoding, name := "weight", encodedLength := 2, encoding := .ofType .uint16 },
      { signal := .endComposite, name := "Box" }, { signal := .endField, name := "content" },
      { signal := .endMessage, name := "Parcel" }]
  buffer := #[]
  offset := 0
  actingVersion := 0
  blockLength := 2

/-- The box goes by the name of its field at first, and by its own once a box is open. -/
example : (({} : Printout).printAll [cutParcel, cutParcel]).scope =
    ["Parcel.", "content.", "Parcel.", "Box."] := by
  decide +kernel

end WireSchema
