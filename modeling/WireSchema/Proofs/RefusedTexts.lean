/-
Module: WireSchema.Proofs.RefusedTexts
Purpose: The reader of a message never looks at a character set, and a printout looks only at those
  of variable data.  So messages whose tokens differ in character sets alone are read alike, to the
  same end or to the same fault, and are told as the same events but for the tokens in them.
Main exports: Token.unlettered, decode_unlettered, Printout.entries, Printout.Itemised,
  Printout.entries_of_unlettered
-/
import Mathlib.Data.List.Forall2
import WireSchema.Proofs.SharedPrintout

namespace WireSchema

/-!
A printout makes an entry of each event: the names of the open constructs, and the line that it
prints behind them, if it prints one.  A text that is refused is an entry without a line.  The
entries before it and behind it are not touched, wherever it is met
(`Printout.entries_of_unlettered`).
-/

/-! ### Tokens without character sets -/

/-- The token without the name of a character set. -/
def Token.unlettered (token : Token) : Token :=
  { token with encoding := { token.encoding with characterEncoding := none } }

namespace Token

variable (token : Token)

@[simp] theorem signal_unlettered : token.unlettered.signal = token.signal :=
  rfl

@[simp] theorem name_unlettered : token.unlettered.name = token.name :=
  rfl

@[simp] theorem span_unlettered : token.unlettered.span = token.span :=
  rfl

end Token

/-- The event without the names of character sets. -/
def Event.unlettered : Event → Event
  | .beginMessage token => .beginMessage token.unlettered
  | .endMessage token => .endMessage token.unlettered
  | .encoding field typeToken value => .encoding field.unlettered typeToken.unlettered value
  | .enumeration field tokens value matched =>
    .enumeration field.unlettered (tokens.map Token.unlettered) value
      (matched.map Token.unlettered)
  | .bitSet field tokens value => .bitSet field.unlettered (tokens.map Token.unlettered) value
  | .beginComposite field tokens =>
    .beginComposite field.unlettered (tokens.map Token.unlettered)
  | .endComposite field tokens => .endComposite field.unlettered (tokens.map Token.unlettered)
  | .groupHeader token count => .groupHeader token.unlettered count
  | .beginGroup token index count => .beginGroup token.unlettered index count
  | .endGroup token index count => .endGroup token.unlettered index count
  | .varData field content typeToken => .varData field.unlettered content typeToken.unlettered

/-! ### What is read does not depend on character sets -/

theorem construct_unlettered (token : Token) (following : List Token) :
    construct token.unlettered (following.map Token.unlettered) =
      (construct token following).map (List.map Token.unlettered) := by
  have range : (token.unlettered :: following.map Token.unlettered).take token.span =
      ((token :: following).take token.span).map Token.unlettered := by
    rw [← List.map_cons, List.map_take]
  simp only [construct, Token.span_unlettered, range, List.length_map]
  by_cases closed : ((token :: following).take token.span).length = token.span ∧
      2 ≤ ((token :: following).take token.span).length
  · rw [if_pos closed, if_pos closed]
    rfl
  · rw [if_neg closed, if_neg closed]
    rfl

theorem readValue_unlettered (source : Source) (field typeToken : Token) (base : Nat) :
    readValue source field.unlettered typeToken.unlettered base =
      readValue source field typeToken base :=
  rfl

theorem constantEnumValue_unlettered (field : Token) (validValues : List Token) :
    constantEnumValue field.unlettered (validValues.map Token.unlettered) =
      constantEnumValue field validValues := by
  cases validValues <;> rfl

theorem matchedValue?_unlettered (validValues : List Token) (value : FieldValue) :
    matchedValue? (validValues.map Token.unlettered) value =
      (matchedValue? validValues value).map Token.unlettered := by
  rw [matchedValue?, matchedValue?]
  cases value.first? with
  | none => rfl
  | some raw =>
      rw [Option.bind_some, Option.bind_some, List.find?_map]
      rfl

theorem passSection_unlettered (signal : Signal) (limit : Nat) (tokens : List Token) :
    passSection signal limit (tokens.map Token.unlettered) =
      ((passSection signal limit tokens).1,
        (passSection signal limit tokens).2.map Token.unlettered) := by
  fun_induction passSection signal limit tokens with
  | case1 => rw [passSection]
  | case2 limit =>
      rw [List.map_nil, passSection.eq_def]
      cases limit <;> rfl
  | case3 limit token rest opens ih =>
      rw [List.map_cons, passSection, Token.signal_unlettered, if_pos opens,
        Token.span_unlettered, ← List.map_cons, ← List.map_drop, ih]
  | case4 limit token rest other =>
      rw [List.map_cons, passSection, Token.signal_unlettered, if_neg other]

theorem varDataLayout_unlettered (field : Token) (range : List Token) :
    walkVarData.varDataLayout field.unlettered (range.map Token.unlettered) =
      (walkVarData.varDataLayout field range).map fun found =>
        (found.1.unlettered, found.2.unlettered) := by
  match range with
  | [] | [_] | [_, _] | [_, _, _] => rfl
  | _ :: _ :: lengthToken :: dataToken :: _ =>
      by_cases leads : lengthToken.signal = .encoding ∧ dataToken.signal = .encoding
      · simp [walkVarData.varDataLayout, leads, Except.map]
      · simp [walkVarData.varDataLayout, leads, Except.map, layoutError]

/-- Dimensions without the names of character sets. -/
def Dimensions.unlettered (dimensions : Dimensions) : Dimensions where
  composite := dimensions.composite.unlettered
  blockLength := dimensions.blockLength.unlettered
  numInGroup := dimensions.numInGroup.unlettered

theorem Dimensions.composite_unlettered (dimensions : Dimensions) :
    dimensions.unlettered.composite = dimensions.composite.unlettered :=
  rfl

theorem dimensionsOf_unlettered (group : Token) (range : List Token) :
    dimensionsOf group.unlettered (range.map Token.unlettered) =
      (dimensionsOf group range).map Dimensions.unlettered := by
  match range with
  | [] | [_] | [_, _] | [_, _, _] => rfl
  | _ :: composite :: blockLength :: numInGroup :: _ =>
      by_cases leads : composite.signal = .beginComposite ∧ blockLength.signal = .encoding ∧
          numInGroup.signal = .encoding
      · simp [dimensionsOf, leads, Except.map, Dimensions.unlettered]
      · simp [dimensionsOf, leads, Except.map, layoutError]

theorem readGroupSize_unlettered (source : Source) (group : Token) (dimensions : Dimensions)
    (position : Nat) :
    readGroupSize source group.unlettered dimensions.unlettered position =
      readGroupSize source group dimensions position :=
  rfl

theorem readVarData_unlettered (source : Source) (position : Nat)
    (field lengthToken dataToken : Token) :
    walkVarData.readVarData source position field.unlettered lengthToken.unlettered
        dataToken.unlettered =
      walkVarData.readVarData source position field lengthToken dataToken :=
  rfl

/-! ### Walks along tokens without character sets -/

theorem walkEnum_unlettered (source : Source) (field : Token) (range : List Token)
    (opening : Token) (base : Nat) :
    walkEnum source field.unlettered (range.map Token.unlettered) opening.unlettered base =
      (walkEnum source field range opening base).mapEvents Event.unlettered := by
  have validValues : ((range.map Token.unlettered).drop 1).dropLast =
      ((range.drop 1).dropLast).map Token.unlettered := by
    rw [← List.map_drop, List.map_dropLast]
  rw [walkEnum, walkEnum]
  simp only [validValues, constantEnumValue_unlettered, readValue_unlettered,
    matchedValue?_unlettered, Walk.mapEvents_bind, Walk.mapEvents_check]
  rfl

mutual

theorem walkComponent_unlettered (source : Source) (field : Token) (base : Nat) :
    ∀ tokens : List Token,
      walkComponent source field.unlettered base (tokens.map Token.unlettered) =
        (walkComponent source field base tokens).mapEvents Event.unlettered
  | [] => by
      rw [List.map_nil, walkComponent.eq_def, walkComponent.eq_def]
      rfl
  | token :: following => by
      have inside (start limit : Nat) :=
        walkMembers_unlettered source field start limit following
      rw [List.map_cons, walkComponent.eq_def, walkComponent.eq_def]
      simp only [Token.signal_unlettered]
      split
      · rw [readValue_unlettered, Walk.mapEvents_bind, Walk.mapEvents_check]
        rfl
      · simp only [construct_unlettered, Walk.check_map_bind, walkEnum_unlettered,
          Walk.mapEvents_bind, Walk.mapEvents_check]
      · simp only [construct_unlettered, Walk.check_map_bind, readValue_unlettered,
          Walk.mapEvents_bind, Walk.mapEvents_check]
        rfl
      · simp only [construct_unlettered, Walk.check_map_bind, List.length_map, inside,
          Walk.mapEvents_bind, Walk.mapEvents_check, Walk.mapEvents_bracket]
        rfl
      · rfl
termination_by tokens => 2 * tokens.length

theorem walkMembers_unlettered (source : Source) (field : Token) (start : Nat) :
    ∀ (limit : Nat) (tokens : List Token),
      walkMembers source field.unlettered start limit (tokens.map Token.unlettered) =
        (walkMembers source field start limit tokens).mapEvents Event.unlettered
  | 0, _ => by
      rw [walkMembers.eq_def, walkMembers.eq_def]
      rfl
  | _ + 1, [] => by
      rw [List.map_nil, walkMembers.eq_def, walkMembers.eq_def]
      rfl
  | limit + 1, token :: following => by
      have first := walkComponent_unlettered source field start (token :: following)
      have others := walkMembers_unlettered source field start (limit + 1 - token.span)
        ((token :: following).drop token.span)
      rw [List.map_cons] at first
      rw [List.map_drop, List.map_cons] at others
      rw [List.map_cons, walkMembers.eq_def, walkMembers.eq_def]
      simp only [Token.span_unlettered, first, others, Walk.mapEvents_bind]
termination_by _ tokens => 2 * tokens.length + 1
decreasing_by
  · simp only [List.length_cons]
    omega
  · have positive := token.span_pos
    simp only [List.length_drop, List.length_cons]
    omega

end

theorem walkFields_unlettered (source : Source) (base limit : Nat) (tokens : List Token) :
    walkFields source base limit (tokens.map Token.unlettered) =
      (walkFields source base limit tokens).mapEvents Event.unlettered := by
  fun_induction walkFields source base limit tokens with
  | case1 =>
      rw [walkFields]
      rfl
  | case2 limit =>
      rw [List.map_nil, walkFields.eq_def]
      cases limit <;> rfl
  | case3 limit field following opens ih =>
      rw [List.map_drop, List.map_cons] at ih
      rw [List.map_cons, walkFields, Token.signal_unlettered, if_pos opens,
        Token.span_unlettered, walkComponent_unlettered, ih, Walk.mapEvents_bind]
  | case4 limit field following other =>
      rw [List.map_cons, walkFields, Token.signal_unlettered, if_neg other]
      rfl

theorem walkVarData_unlettered (source : Source) (position limit : Nat) (tokens : List Token) :
    walkVarData source position limit (tokens.map Token.unlettered) =
      (walkVarData source position limit tokens).mapEvents Event.unlettered := by
  fun_induction walkVarData source position limit tokens with
  | case1 =>
      rw [walkVarData]
      rfl
  | case2 position limit =>
      rw [List.map_nil, walkVarData.eq_def]
      cases limit <;> rfl
  | case3 position limit field following opens ih =>
      rw [List.map_drop, List.map_cons] at ih
      rw [List.map_cons, walkVarData, Token.signal_unlettered, if_pos opens]
      simp only [construct_unlettered, varDataLayout_unlettered, Walk.check_map_bind,
        readVarData_unlettered, Token.span_unlettered, Walk.mapEvents_bind,
        Walk.mapEvents_check, ih]
      rfl
  | case4 position limit field following other =>
      rw [List.map_cons, walkVarData, Token.signal_unlettered, if_neg other]
      rfl

mutual

theorem walkGroups_unlettered (source : Source) : ∀ (position limit : Nat) (tokens : List Token),
    walkGroups source position limit (tokens.map Token.unlettered) =
      (walkGroups source position limit tokens).mapEvents Event.unlettered
  | position, 0, _ => by
      rw [walkGroups.eq_def, walkGroups.eq_def]
      rfl
  | position, _ + 1, [] => by
      rw [List.map_nil, walkGroups.eq_def]
      rfl
  | position, limit + 1, group :: following => by
      have entry (skipped start blockLength inside : Nat) :=
        walkBlock_unlettered source start blockLength inside (following.drop skipped)
      have others (next : Nat) := walkGroups_unlettered source next (limit + 1 - group.span)
        ((group :: following).drop group.span)
      simp only [List.map_drop] at entry
      rw [List.map_drop, List.map_cons] at others
      rw [List.map_cons, walkGroups, walkGroups, Token.signal_unlettered]
      by_cases opens : group.signal = .beginGroup
      · rw [if_pos opens, if_pos opens]
        simp only [construct_unlettered, dimensionsOf_unlettered, readGroupSize_unlettered,
          Walk.check_map_bind, Walk.iterate_eq_inTurn, Walk.mapEvents_check,
          Walk.mapEvents_bind, Walk.mapEvents_inTurn, Walk.mapEvents_bracket,
          Dimensions.composite_unlettered, List.length_map, Token.span_unlettered, entry, others]
        rfl
      · rw [if_neg opens, if_neg opens]
        rfl
termination_by _ _ tokens => 2 * tokens.length
decreasing_by
  · simp only [List.length_drop, List.length_cons]
    omega
  · have positive := group.span_pos
    simp only [List.length_drop, List.length_cons]
    omega

theorem walkBlock_unlettered (source : Source) (start blockLength limit : Nat)
    (tokens : List Token) :
    walkBlock source start blockLength limit (tokens.map Token.unlettered) =
      (walkBlock source start blockLength limit tokens).mapEvents Event.unlettered := by
  have groups (position : Nat) := walkGroups_unlettered source position
    (passSection .beginField limit tokens).1 (passSection .beginField limit tokens).2
  rw [walkBlock.eq_def, walkBlock.eq_def]
  simp only [walkFields_unlettered, passSection_unlettered, groups, walkVarData_unlettered,
    Walk.mapEvents_bind]
termination_by 2 * tokens.length + 1
decreasing_by
  have shorter := passSection_length_le .beginField limit tokens
  omega

end

/-- Tokens without character sets tell the same story, but for the tokens in it. -/
theorem decode_unlettered (buffer : Buffer) (offset : Nat) (actingVersion : Int32)
    (blockLength : Nat) (tokens : List Token) :
    decode buffer offset actingVersion blockLength (tokens.map Token.unlettered) =
      (decode buffer offset actingVersion blockLength tokens).mapEvents Event.unlettered := by
  rw [decode, decode, walkMessage.eq_def, walkMessage.eq_def]
  cases tokens with
  | nil => rfl
  | cons opening following =>
      simp only [List.map_cons, List.getLast?_map, Token.signal_unlettered, List.length_map]
      cases following.getLast? with
      | none => rfl
      | some closing =>
          simp only [Option.map_some, Token.signal_unlettered, walkBlock_unlettered]
          by_cases framed : opening.signal = .beginMessage ∧ closing.signal = .endMessage
          · rw [if_pos framed, if_pos framed, Walk.mapEvents_bracket]
            rfl
          · rw [if_neg framed, if_neg framed]
            rfl

/-- Tokens that differ in character sets alone lead to the same end or to the same fault, along
events that differ in the character sets of their tokens alone. -/
theorem decode_of_unlettered {first second : List Token}
    (sameBut : first.map Token.unlettered = second.map Token.unlettered) (buffer : Buffer)
    (offset : Nat) (actingVersion : Int32) (blockLength : Nat) :
    let one := decode buffer offset actingVersion blockLength first
    let other := decode buffer offset actingVersion blockLength second
    one.outcome = other.outcome ∧
      one.events.map Event.unlettered = other.events.map Event.unlettered := by
  intro one other
  have same : one.mapEvents Event.unlettered = other.mapEvents Event.unlettered := by
    rw [← decode_unlettered, ← decode_unlettered, sameBut]
  have outcome := congrArg Walk.outcome same
  have events := congrArg Walk.events same
  exact ⟨outcome, events⟩

/-! ### What a printout makes of an event -/

/-- The character set of variable data, if the event tells of variable data. -/
def Event.characterSet? : Event → Option (Option String)
  | .varData _ _ typeToken => some typeToken.encoding.characterEncoding
  | _ => none

/-- Why the text of variable data is refused, if the event tells of such data. -/
def Event.refusal? : Event → Option Text.TextError
  | .varData field content typeToken =>
    match Text.ofVarData field.name content typeToken.encoding.characterEncoding with
    | .ok _ => none
    | .error problem => some problem
  | _ => none

theorem Event.exists_varData {event : Event} {characterSet : Option String}
    (isSet : event.characterSet? = some characterSet) :
    ∃ field content typeToken, event = .varData field content typeToken ∧
      typeToken.encoding.characterEncoding = characterSet := by
  cases event with
  | varData field content typeToken => exact ⟨field, content, typeToken, rfl, Option.some.inj isSet⟩
  | _ => cases isSet

namespace Printout

/-- An event as a printout takes it up: the names of the open constructs, and the line printed,
which is empty if none is. -/
structure Entry where
  event : Event
  heading : String
  line : String

/-- What a printout makes of one more event. -/
def entry (printout : Printout) (event : Event) : Entry where
  event := event
  heading := String.join printout.scope
  line := ({ printout with text := "" }.record event).text

/-- What a printout makes of some events in turn. -/
def entries (printout : Printout) : List Event → List Entry
  | [] => []
  | event :: events => printout.entry event :: (printout.record event).entries events

theorem map_event_entries (events : List Event) (printout : Printout) :
    (printout.entries events).map Entry.event = events := by
  induction events generalizing printout with
  | nil => rfl
  | cons event events ih => rw [entries, List.map_cons, ih, entry]

theorem text_record (printout : Printout) (event : Event) :
    (printout.record event).text = printout.text ++ (printout.entry event).line := by
  have isBehind : printout = { printout with text := "" }.behind { text := printout.text } := by
    simp [behind]
  have recorded := record_behind { printout with text := "" } { text := printout.text } event
  rw [← isBehind] at recorded
  exact congrArg Printout.text recorded

/-- A text is made up of the lines of its events. -/
theorem text_recordAll (events : List Event) (printout : Printout) :
    (printout.recordAll events).text =
      printout.text ++ String.join ((printout.entries events).map Entry.line) := by
  induction events generalizing printout with
  | nil =>
      rw [entries, List.map_nil, String.join_nil, String.append_empty]
      rfl
  | cons event events ih =>
      rw [recordAll_cons, ih, text_record, entries, List.map_cons, String.join_cons,
        String.append_assoc]

theorem errors_record (printout : Printout) (event : Event) :
    (printout.record event).errors = printout.errors ++ event.refusal?.toList := by
  cases event with
  | varData field content typeToken =>
      simp only [record, Event.refusal?]
      cases Text.ofVarData field.name content typeToken.encoding.characterEncoding with
      | ok text => exact (List.append_nil _).symm
      | error problem => rfl
  | _ => exact (List.append_nil _).symm

/-- The texts that are refused, in the order in which they are met. -/
theorem errors_recordAll (events : List Event) (printout : Printout) :
    (printout.recordAll events).errors =
      printout.errors ++ events.filterMap Event.refusal? := by
  induction events generalizing printout with
  | nil => exact (List.append_nil _).symm
  | cons event events ih =>
      rw [recordAll_cons, ih, errors_record, List.append_assoc]
      cases refused : event.refusal? with
      | none =>
          rw [List.filterMap_cons_none refused]
          rfl
      | some problem =>
          rw [List.filterMap_cons_some refused]
          rfl

/-- Variable data is a line of its own if its bytes are a text. -/
theorem line_of_text {field typeToken : Token} {content : List UInt8} {text : String}
    (isText : Text.ofVarData field.name content typeToken.encoding.characterEncoding = .ok text)
    (printout : Printout) :
    (printout.entry (.varData field content typeToken)).line =
      String.join printout.scope ++ (field.name ++ "=" ++ text) ++ "\n" := by
  simp only [entry, record, isText]
  rfl

/-- Text that is refused is no line. -/
theorem line_of_refused {field typeToken : Token} {content : List UInt8} {problem : Text.TextError}
    (refused : Text.ofVarData field.name content typeToken.encoding.characterEncoding =
      .error problem) (printout : Printout) :
    (printout.entry (.varData field content typeToken)).line = "" := by
  simp only [entry, record, refused]

/-- Every line stands behind the names of the open constructs. -/
theorem line_cases (printout : Printout) (event : Event) :
    (printout.entry event).line = "" ∨
      ∃ content, (printout.entry event).line =
        (printout.entry event).heading ++ content ++ "\n" := by
  cases event with
  | varData field content typeToken =>
      cases shape : Text.ofVarData field.name content typeToken.encoding.characterEncoding with
      | ok text => exact .inr ⟨_, line_of_text shape printout⟩
      | error problem => exact .inl (line_of_refused shape printout)
  | encoding | enumeration | bitSet | groupHeader => exact .inr ⟨_, rfl⟩
  | _ => exact .inl rfl

/-! ### Entries of events that differ in character sets -/

/-- The open constructs of a printout, without what it has printed and refused. -/
def account (printout : Printout) : Printout :=
  { printout with text := "", errors := [] }

theorem choicesText_unlettered (tokens : List Token) (word : UInt64) :
    choicesText (tokens.map Token.unlettered) word = choicesText tokens word := by
  rw [choicesText, choicesText, List.filter_map, List.map_map]
  rfl

theorem nameOf_unlettered (printout : Printout) (threshold : Nat) (field : Token)
    (tokens : List Token) :
    printout.nameOf threshold field.unlettered (tokens.map Token.unlettered) =
      printout.nameOf threshold field tokens := by
  cases tokens <;> rfl

/-- Which constructs are open does not depend on character sets. -/
theorem account_record (printout : Printout) (event : Event) :
    (printout.record event).account = (printout.account.record event.unlettered).account := by
  cases event with
  | varData field content typeToken =>
      -- Of the two printouts one may refuse what the other one prints; neither opens a construct.
      simp only [Event.unlettered, record]
      split <;> split <;> rfl
  | beginComposite field tokens =>
      simp only [Event.unlettered, record, nameOf_unlettered]
      rfl
  | _ => rfl

/-- Nor does a line, unless it is that of variable data. -/
theorem line_unlettered {event : Event} (noSet : event.characterSet? = none)
    (printout : Printout) :
    (printout.entry event).line = (printout.account.entry event.unlettered).line := by
  cases event with
  | varData => cases noSet
  | enumeration field tokens value matched =>
      simp only [entry, Event.unlettered, record, nameOf_unlettered]
      cases matched <;> rfl
  | bitSet field tokens value =>
      simp only [entry, Event.unlettered, record, nameOf_unlettered, choicesText_unlettered]
      rfl
  | _ => rfl

/-- What is made of the same event in two messages that differ in character sets: a line is another
one only if it is that of variable data whose character set is another one. -/
structure Entry.Alike (one other : Entry) : Prop where
  event : one.event.unlettered = other.event.unlettered
  heading : one.heading = other.heading
  line : one.event.characterSet? = other.event.characterSet? → one.line = other.line

theorem entry_alike {first second : Event} (sameEvent : first.unlettered = second.unlettered)
    {one other : Printout} (sameAccount : one.account = other.account) :
    (one.entry first).Alike (other.entry second) where
  event := sameEvent
  heading := by
    have sameScope := congrArg scope sameAccount
    exact congrArg String.join sameScope
  line := by
    intro sameSet
    cases isSet : first.characterSet? with
    | none =>
        have noSet : second.characterSet? = none := sameSet.symm.trans isSet
        rw [line_unlettered isSet, line_unlettered noSet, sameEvent, sameAccount]
    | some characterSet =>
        obtain ⟨field, content, typeToken, rfl, hasSet⟩ := Event.exists_varData isSet
        obtain ⟨otherField, otherContent, otherType, rfl, otherHasSet⟩ :=
          Event.exists_varData (sameSet.symm.trans isSet)
        rw [Event.unlettered, Event.unlettered, Event.varData.injEq] at sameEvent
        obtain ⟨sameField, rfl, -⟩ := sameEvent
        have sameName := congrArg Token.name sameField
        have sameScope := congrArg scope sameAccount
        rw [Token.name_unlettered, Token.name_unlettered] at sameName
        change one.scope = other.scope at sameScope
        have sameText : Text.ofVarData field.name content typeToken.encoding.characterEncoding =
            Text.ofVarData otherField.name content otherType.encoding.characterEncoding := by
          rw [sameName, hasSet, otherHasSet]
        cases isText : Text.ofVarData field.name content typeToken.encoding.characterEncoding with
        | ok text =>
            rw [line_of_text isText, line_of_text (sameText.symm.trans isText), sameName,
              sameScope]
        | error problem =>
            rw [line_of_refused isText, line_of_refused (sameText.symm.trans isText)]

/-- Whatever is refused in one of two messages that differ in character sets, what is made of all
other events is the same in both. -/
theorem entries_alike {first second : List Event}
    (sameEvents : first.map Event.unlettered = second.map Event.unlettered)
    {one other : Printout} (sameAccount : one.account = other.account) :
    List.Forall₂ Entry.Alike (one.entries first) (other.entries second) := by
  induction first generalizing second one other with
  | nil =>
      have noEvents : second = [] := List.map_eq_nil_iff.mp sameEvents.symm
      rw [noEvents]
      exact .nil
  | cons event events ih =>
      obtain ⟨otherEvent, otherEvents, rfl, sameFirst, sameOthers⟩ :=
        List.map_eq_cons_iff.mp sameEvents.symm
      have accounts : (one.record event).account = (other.record otherEvent).account := by
        rw [account_record, account_record other, sameAccount, sameFirst]
      exact .cons (entry_alike sameFirst.symm sameAccount) (ih sameOthers.symm accounts)

/-! ### Messages that differ in character sets -/

/-- A fresh printout of some events, one entry for each.  Variable data without a line is what was
refused, and the other variable data is printed as its text. -/
structure Itemised (events : List Event) (entries : List Entry) : Prop where
  told : entries.map Entry.event = events
  text : (({} : Printout).recordAll events).text = String.join (entries.map Entry.line)
  errors : (({} : Printout).recordAll events).errors = events.filterMap Event.refusal?
  line : ∀ entry ∈ entries, entry.line = "" ∨
    ∃ content, entry.line = entry.heading ++ content ++ "\n"
  varData : ∀ entry ∈ entries, ∀ field content typeToken,
    entry.event = .varData field content typeToken →
      (entry.line = "" ↔ entry.event.refusal?.isSome) ∧
      ∀ text, Text.ofVarData field.name content typeToken.encoding.characterEncoding = .ok text →
        entry.line = entry.heading ++ (field.name ++ "=" ++ text) ++ "\n"

theorem exists_of_mem_entries {events : List Event} {printout : Printout} {item : Entry}
    (member : item ∈ printout.entries events) :
    ∃ before event, item = entry before event := by
  induction events generalizing printout with
  | nil => cases member
  | cons event events ih =>
      rcases List.mem_cons.mp member with isFirst | isLater
      · exact ⟨printout, event, isFirst⟩
      · exact ih isLater

theorem itemised_entries (events : List Event) :
    Itemised events (({} : Printout).entries events) where
  told := map_event_entries events _
  text := by
    rw [text_recordAll, String.empty_append]
  errors := errors_recordAll events _
  line := by
    intro item member
    obtain ⟨before, event, rfl⟩ := exists_of_mem_entries member
    exact line_cases before event
  varData := by
    intro item member field content typeToken isVarData
    obtain ⟨before, event, rfl⟩ := exists_of_mem_entries member
    change event = .varData field content typeToken at isVarData
    subst isVarData
    cases shape : Text.ofVarData field.name content typeToken.encoding.characterEncoding with
    | ok text =>
        have isLine := line_of_text shape before
        refine ⟨⟨fun noLine => ?_, fun refused => ?_⟩, fun other isOther => ?_⟩
        · rw [isLine] at noLine
          simp at noLine
        · simp [entry, Event.refusal?, shape] at refused
        · cases isOther
          exact isLine
    | error problem =>
        refine ⟨⟨fun _ => ?_, fun _ => line_of_refused shape before⟩, fun _ isText => ?_⟩
        · simp [entry, Event.refusal?, shape]
        · cases isText

/-- Along tokens that differ in character sets alone, and for every message, what is read comes to
the same end or to the same fault.  The two printouts are made up of as many entries, and an entry
of the one is that of the other unless it is of variable data with another character set.  Each of
them refuses the variable data whose bytes are no text in its own character sets, in the order in
which it meets them, and prints no line for just these. -/
theorem entries_of_unlettered {first second : List Token}
    (sameBut : first.map Token.unlettered = second.map Token.unlettered) (buffer : Buffer)
    (offset : Nat) (actingVersion : Int32) (blockLength : Nat) :
    let one := decode buffer offset actingVersion blockLength first
    let other := decode buffer offset actingVersion blockLength second
    let ofOne := ({} : Printout).entries one.events
    let ofOther := ({} : Printout).entries other.events
    one.outcome = other.outcome ∧ List.Forall₂ Entry.Alike ofOne ofOther ∧
      Itemised one.events ofOne ∧ Itemised other.events ofOther := by
  intro one other ofOne ofOther
  obtain ⟨outcome, events⟩ :=
    decode_of_unlettered sameBut buffer offset actingVersion blockLength
  exact ⟨outcome, entries_alike events rfl, itemised_entries _, itemised_entries _⟩

/-- Pages of a letter, each with a note, and a title. -/
def letterTokens (notesIn : String) : List Token :=
  [{ signal := .beginMessage, name := "Letter", storedSpan := 20 },
    { signal := .beginGroup, name := "pages", storedSpan := 12 },
    { signal := .beginComposite, name := "size", encodedLength := 2, storedSpan := 4 },
    { signal := .encoding, name := "blockLength", encodedLength := 1,
      encoding := .ofType .uint8 },
    { signal := .encoding, name := "numInGroup", encodedLength := 1, offset := 1,
      encoding := .ofType .uint8 },
    { signal := .endComposite, name := "size" }] ++ text "note" notesIn ++
  [{ signal := .endGroup, name := "pages" }] ++ text "title" "UTF-8" ++
  [{ signal := .endMessage, name := "Letter" }]
where
  text (name characterSet : String) : List Token :=
    [{ signal := .beginVarData, name := name, storedSpan := 6 },
      { signal := .beginComposite, name := "text", storedSpan := 4 },
      { signal := .encoding, name := "length", encodedLength := 1, encoding := .ofType .uint8 },
      { signal := .encoding, name := "varData", encodedLength := -1, offset := 1,
        encoding := { Encoding.ofType .uint8 with characterEncoding := some characterSet } },
      { signal := .endComposite, name := "text" }, { signal := .endVarData, name := name }]

/-- The first note is lost to a reader who takes it for another kind of text; the second note is
not, and the title is refused by both. -/
theorem entries_of_unlettered_letter :
    let buffer : Buffer := #[0, 2, 1, 0xe9, 1, 0x61, 1, 0xe9]
    let one := decode buffer 0 0 0 (letterTokens "LATIN1")
    let other := decode buffer 0 0 0 (letterTokens "ASCII")
    let ofOne := ({} : Printout).entries one.events
    let ofOther := ({} : Printout).entries other.events
    (letterTokens "LATIN1").map Token.unlettered = (letterTokens "ASCII").map Token.unlettered ∧
      one.outcome = other.outcome ∧ List.Forall₂ Entry.Alike ofOne ofOther ∧
      (({} : Printout).recordAll one.events).text =
        "Letter.pages Group Header : numInGroup=2\nLetter.pages.note=é\nLetter.pages.note=a\n" ∧
      (({} : Printout).recordAll other.events).text =
        "Letter.pages Group Header : numInGroup=2\nLetter.pages.note=a\n" ∧
      (({} : Printout).recordAll one.events).errors = [.invalid "title" "UTF-8" 0] ∧
      (({} : Printout).recordAll other.events).errors =
        [.invalid "note" "ASCII" 0, .invalid "title" "UTF-8" 0] := by
  intro buffer one other ofOne ofOther
  have sameBut : (letterTokens "LATIN1").map Token.unlettered =
      (letterTokens "ASCII").map Token.unlettered := rfl
  obtain ⟨outcome, alike, -, -⟩ := entries_of_unlettered sameBut buffer 0 0 0
  exact ⟨sameBut, outcome, alike, by decide +kernel, by decide +kernel, by decide +kernel,
    by decide +kernel⟩

end Printout

end WireSchema
