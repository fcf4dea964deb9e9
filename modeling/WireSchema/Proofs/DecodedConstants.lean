/-
Module: WireSchema.Proofs.DecodedConstants
Purpose: What reading a message makes of constants, whatever its tokens are.  An encoding, a set or
  an enum is told with the value of the schema where its token or that of its field is a constant
  that has its value, and an enum of a constant field with the value of the first token in it.  None
  of these values depends on the bytes, and none of them is what a fault is about.  The presence of
  other tokens is not looked at: the members of a composite are read one by one, each by this rule,
  and the sizes of groups and the lengths of variable data always come from the bytes.
Main exports: Token.FixesValue, Event.TellsConstants, UnfixedFault, ReadsConstants,
  readsConstants
-/
import WireSchema.Proofs.WalksAlong

namespace WireSchema

/-! ### Values that the schema fixes -/

/-- A constant that has its value. -/
def Token.FixesValue (token : Token) : Prop :=
  token.isConstant = true ∧ token.encoding.constValue ≠ none

/-- The value of a type of a field is that of the type, or else that of the field, if one of the two
is a constant that has its value. -/
def FieldValue.AsFixed (value : FieldValue) (field token : Token) : Prop :=
  token.FixesValue ∨ field.FixesValue →
    ∃ constant, (token.encoding.constValue <|> field.encoding.constValue) = some constant ∧
      value = .constant constant

/-- The constant of the first token inside an enum. -/
def firstConstant? (range : List Token) : Option Value :=
  (range.drop 1).dropLast.head?.bind (·.encoding.constValue)

/-- An event tells the value that the schema fixes, if it does. -/
def Event.TellsConstants : Event → Prop
  | .encoding field token value => value.AsFixed field token
  | .bitSet field range value => ∀ token ∈ range.head?, value.AsFixed field token
  | .enumeration field range value _ =>
    if field.isConstant then
      ∃ constant, firstConstant? range = some constant ∧ value = .constant constant
    else ∀ token ∈ range.head?, value.AsFixed field token
  | _ => True

/-- A fault that is not about a value that the schema fixes: it lies in how the tokens are laid out,
or in a value that neither the type nor the field fixes, or in the enum of a constant field, where
the first token has no constant. -/
inductive UnfixedFault (source : Source) (tokens : List Token) : AccessError → Prop where
  | frame (name : String) : UnfixedFault source tokens
      (.unexpectedLayout name "a message framed by BEGIN_MESSAGE/END_MESSAGE")
  | layout {cause : AccessError} : LayoutFault source tokens cause →
      UnfixedFault source tokens cause
  | value {field token : Token} {base : Nat} {cause : AccessError} : field ∈ tokens →
      token ∈ tokens → ¬ token.FixesValue → ¬ field.FixesValue →
      readValue source field token base = .error cause → UnfixedFault source tokens cause
  | valueless {field opening : Token} {following range : List Token} : field ∈ tokens →
      field.isConstant = true → opening :: following <:+ tokens → opening.signal = .beginEnum →
      construct opening following = .ok range → firstConstant? range = none →
      UnfixedFault source tokens (layoutError field "a constant enum holding its valid value")

/-- What reading a message makes of the constants among its tokens.  They are told as the schema
gives them (`told`), no fault is about one of them (`faults`), and what is read of them is the same
for any two buffers, versions and positions (`unread`). -/
structure ReadsConstants (tokens : List Token) : Prop where
  told : ∀ (buffer : Buffer) (offset : Nat) (actingVersion : Int32) (blockLength : Nat),
    ∀ event ∈ (decode buffer offset actingVersion blockLength tokens).events,
      event.TellsConstants
  faults : ∀ (buffer : Buffer) (offset : Nat) (actingVersion : Int32) (blockLength : Nat)
    (problem : ScopedError),
    (decode buffer offset actingVersion blockLength tokens).outcome = .error problem →
      UnfixedFault ⟨buffer, actingVersion⟩ tokens problem.cause
  unread : ∀ field ∈ tokens, ∀ token following, token :: following <:+ tokens →
    token.signal ≠ .beginComposite →
    token.FixesValue ∨ field.FixesValue ∨
      (token.signal = .beginEnum ∧ field.isConstant = true) →
    ∀ (source other : Source) (base otherBase : Nat),
      walkComponent source field base (token :: following) =
        walkComponent other field otherBase (token :: following)

/-! ### Reading what is fixed -/

/-- What the schema fixes is read without the bytes. -/
theorem readValue_fixed {field token : Token} (fixed : token.FixesValue ∨ field.FixesValue) :
    ∃ constant, (token.encoding.constValue <|> field.encoding.constValue) = some constant ∧
      ∀ source base, readValue source field token base = .ok (.constant constant) := by
  have isConstant : (field.isConstant || token.isConstant) = true := by
    rcases fixed with ⟨isConstant, _⟩ | ⟨isConstant, _⟩
    · rw [isConstant, Bool.or_true]
    · rw [isConstant, Bool.true_or]
  have given : ∃ constant,
      (token.encoding.constValue <|> field.encoding.constValue) = some constant := by
    cases own : token.encoding.constValue with
    | some constant => exact ⟨constant, rfl⟩
    | none =>
        rcases fixed with ⟨_, hasOwn⟩ | ⟨_, hasValue⟩
        · exact absurd own hasOwn
        · obtain ⟨constant, isValue⟩ := Option.ne_none_iff_exists'.mp hasValue
          exact ⟨constant, isValue⟩
  obtain ⟨constant, isGiven⟩ := given
  refine ⟨constant, isGiven, fun source base => ?_⟩
  have isFixed : constantOf? field token = some constant := by
    rw [constantOf?, if_pos isConstant, isGiven]
  rw [readValue, isFixed]

/-- Whatever is read of a type is as the schema fixes it. -/
theorem FieldValue.asFixed_of_read {source : Source} {field token : Token} {base : Nat}
    {value : FieldValue} (isRead : readValue source field token base = .ok value) :
    value.AsFixed field token := by
  intro fixed
  obtain ⟨constant, isGiven, always⟩ := readValue_fixed fixed
  rw [always] at isRead
  exact ⟨constant, isGiven, (Except.ok.inj isRead).symm⟩

/-- A value that cannot be read is none that the schema fixes. -/
theorem not_fixed_of_error {source : Source} {field token : Token} {base : Nat}
    {cause : AccessError} (fails : readValue source field token base = .error cause) :
    ¬ token.FixesValue ∧ ¬ field.FixesValue := by
  rw [← not_or]
  intro fixed
  obtain ⟨constant, _, always⟩ := readValue_fixed fixed
  rw [always] at fails
  cases fails

/-- What is read of a fixed value, and of the enum of a constant field, depends on the tokens
alone. -/
theorem walkComponent_unread {field token : Token} {following : List Token}
    (noComposite : token.signal ≠ .beginComposite)
    (fixed : token.FixesValue ∨ field.FixesValue ∨
      (token.signal = .beginEnum ∧ field.isConstant = true))
    (source other : Source) (base otherBase : Nat) :
    walkComponent source field base (token :: following) =
      walkComponent other field otherBase (token :: following) := by
  have sameValue (fixed : token.FixesValue ∨ field.FixesValue) :
      readValue source field token base = readValue other field token otherBase := by
    obtain ⟨constant, _, always⟩ := readValue_fixed fixed
    rw [always, always]
  have sameEnum (range : List Token) :
      walkEnum source field range token base = walkEnum other field range token otherBase := by
    rw [walkEnum, walkEnum]
    by_cases isConstant : field.isConstant = true
    · rw [if_pos isConstant, if_pos isConstant]
    · rw [if_neg isConstant, if_neg isConstant, sameValue]
      rcases fixed with fixed | fixed | ⟨_, constant⟩
      · exact .inl fixed
      · exact .inr fixed
      · exact absurd constant isConstant
  have orValue (noEnum : token.signal ≠ .beginEnum) : token.FixesValue ∨ field.FixesValue := by
    rcases fixed with fixed | fixed | ⟨isEnum, _⟩
    · exact .inl fixed
    · exact .inr fixed
    · exact absurd isEnum noEnum
  rw [walkComponent.eq_def, walkComponent.eq_def]
  simp only
  split
  case h_1 isEncoding => rw [sameValue (orValue (by rw [isEncoding]; decide))]
  case h_2 => simp only [sameEnum]
  case h_3 isSet => rw [sameValue (orValue (by rw [isSet]; decide))]
  case h_4 => contradiction
  case h_5 => rfl

/-! ### Walks that tell constants as they are fixed -/

/-- What a walk along some tokens tells is as the schema fixes it, and so is not what its fault is
about. -/
structure Walk.HeedsConstants (source : Source) (tokens : List Token) {α : Type}
    (walk : Walk α) : Prop where
  told : ∀ event ∈ walk.events, event.TellsConstants
  faults : ∀ problem, walk.outcome = .error problem → UnfixedFault source tokens problem.cause

namespace Walk.HeedsConstants

variable {source : Source} {tokens : List Token} {α β : Type}

theorem done (result : α) : HeedsConstants source tokens (Walk.done result) where
  told _ member := nomatch member
  faults _ failed := nomatch failed

theorem emit {event : Event} (tells : event.TellsConstants) :
    HeedsConstants source tokens (Walk.emit event) where
  told := by
    intro other member
    rwa [Walk.mem_events_emit.mp member]
  faults _ failed := nomatch failed

theorem fault {cause : AccessError} (unfixed : UnfixedFault source tokens cause) :
    HeedsConstants source tokens (Walk.check (.error cause) : Walk α) where
  told _ member := nomatch member
  faults := by
    intro problem failed
    cases failed
    exact unfixed

theorem bind {walk : Walk α} {next : α → Walk β} (first : HeedsConstants source tokens walk)
    (second : ∀ result, HeedsConstants source tokens (next result)) :
    HeedsConstants source tokens (walk >>= next) where
  told := by
    intro event member
    rcases Walk.mem_events_bind.mp member with before | ⟨result, _, behind⟩
    · exact first.told event before
    · exact (second result).told event behind
  faults := by
    intro problem failed
    obtain ⟨events, outcome⟩ := walk
    cases outcome with
    | error =>
        cases failed
        exact first.faults problem rfl
    | ok result => exact (second result).faults problem failed

/-- A step that delivers nothing, and a walk that relies on its success. -/
theorem check_bind {step : Except AccessError α} {next : α → Walk β}
    (fails : ∀ cause, step = .error cause → UnfixedFault source tokens cause)
    (behind : ∀ result, step = .ok result → HeedsConstants source tokens (next result)) :
    HeedsConstants source tokens (Walk.check step >>= next) := by
  cases step with
  | error cause => exact .fault (fails cause rfl)
  | ok result => exact behind result rfl

theorem bracket {opening closing : Event} (name : String) {inner : Walk α}
    (inside : HeedsConstants source tokens inner) (opens : opening.TellsConstants)
    (closes : closing.TellsConstants) :
    HeedsConstants source tokens (Walk.bracket opening closing name inner) where
  told := by
    intro event member
    rcases Walk.mem_events_bracket member with rfl | isInner | rfl
    · exact opens
    · exact inside.told event isInner
    · exact closes
  faults := by
    intro problem failed
    obtain ⟨events, outcome⟩ := inner
    cases outcome with
    | ok result => cases failed
    | error earlier =>
        cases failed
        exact inside.faults earlier rfl

/-- A value that is read for a field, and an event that tells it. -/
theorem read {field token : Token} (isField : field ∈ tokens) (isToken : token ∈ tokens)
    (base : Nat) {event : FieldValue → Event}
    (tells : ∀ value, value.AsFixed field token → (event value).TellsConstants) :
    HeedsConstants source tokens (do
      let value ← Walk.check (readValue source field token base)
      Walk.emit (event value)) := by
  refine .check_bind (fun cause fails => ?_) fun value isRead => ?_
  · obtain ⟨tokenOpen, fieldOpen⟩ := not_fixed_of_error fails
    exact .value isField isToken tokenOpen fieldOpen fails
  · exact .emit (tells value (FieldValue.asFixed_of_read isRead))

/-- An enum is told with the value of the first token in it where the field is constant, and is read
like any other type elsewhere. -/
theorem enumeration {field opening : Token} {following range : List Token}
    (isField : field ∈ tokens) (stands : opening :: following <:+ tokens)
    (opens : opening.signal = .beginEnum) (isRange : construct opening following = .ok range)
    (base : Nat) : HeedsConstants source tokens (walkEnum source field range opening base) := by
  obtain ⟨others, rfl⟩ := construct_eq_cons isRange
  rw [walkEnum]
  by_cases isConstant : field.isConstant = true
  · rw [if_pos isConstant]
    cases first : firstConstant? (opening :: others) with
    | none =>
        have valueless : UnfixedFault source tokens _ :=
          .valueless isField isConstant stands opens isRange first
        rw [firstConstant?] at first
        rw [constantEnumValue, first]
        exact .fault valueless
    | some constant =>
        have tells : Event.TellsConstants (.enumeration field (opening :: others)
            (.constant constant) (matchedValue? ((opening :: others).drop 1).dropLast
              (.constant constant))) := by
          rw [Event.TellsConstants, if_pos isConstant]
          exact ⟨constant, first, rfl⟩
        rw [firstConstant?] at first
        rw [constantEnumValue, first]
        exact .emit tells
  · rw [if_neg isConstant]
    refine .read isField (stands.subset List.mem_cons_self) base fun value asFixed => ?_
    rw [Event.TellsConstants, if_neg isConstant]
    intro token isOpening
    cases isOpening
    exact asFixed

/-- What is read of an encoding, an enum or a set. -/
theorem leaf {field token : Token} {following : List Token} (base : Nat)
    (isField : field ∈ tokens) (stands : token :: following <:+ tokens)
    (noComposite : token.signal ≠ .beginComposite) :
    HeedsConstants source tokens (walkComponent source field base (token :: following)) := by
  have isToken := stands.subset List.mem_cons_self
  rw [walkComponent.eq_def]
  simp only
  split
  case h_1 => exact .read isField isToken base fun _ asFixed => asFixed
  case h_2 isEnum =>
    exact .check_bind (fun _ fails => .layout (.unclosed stands fails)) fun range isRange =>
      .enumeration isField stands isEnum isRange base
  case h_3 =>
    refine .check_bind (fun _ fails => .layout (.unclosed stands fails)) fun range isRange => ?_
    obtain ⟨others, rfl⟩ := construct_eq_cons isRange
    refine .read isField isToken base fun value asFixed opening isOpening => ?_
    cases isOpening
    exact asFixed
  case h_4 => contradiction
  case h_5 => exact .done ()

/-- Telling constants as they are fixed is carried along the tokens of a message. -/
theorem carriedAlong (source : Source) (tokens : List Token) :
    Walk.CarriedAlong source tokens (HeedsConstants source tokens) where
  done := done
  bind := bind
  composite _ opening _ _ inside := inside.bracket opening.name trivial trivial
  entry group _ _ _ inside := inside.bracket group.name trivial trivial
  header _ _ := .emit trivial
  varData _ _ _ := .emit trivial
  fault unfixed := .fault (.layout unfixed)
  leaf := leaf

end Walk.HeedsConstants

/-- A message is read with its constants as the schema fixes them. -/
theorem walkMessage_heedsConstants (source : Source) (offset blockLength : Nat)
    (tokens : List Token) :
    (walkMessage source offset blockLength tokens).HeedsConstants source tokens := by
  rw [walkMessage.eq_def]
  cases tokens with
  | nil => exact .fault (.frame "")
  | cons opening following =>
      simp only
      split
      · exact .fault (.frame opening.name)
      · split
        · refine .bracket opening.name ?_ trivial trivial
          exact (Walk.HeedsConstants.carriedAlong source (opening :: following)).block offset
            blockLength _ following (List.suffix_cons opening following)
        · exact .fault (.frame opening.name)

/-- Whatever the tokens of a message are, it is read with its constants as the schema fixes them. -/
theorem readsConstants (tokens : List Token) : ReadsConstants tokens where
  told buffer offset actingVersion blockLength :=
    (walkMessage_heedsConstants ⟨buffer, actingVersion⟩ offset blockLength tokens).told
  faults buffer offset actingVersion blockLength :=
    (walkMessage_heedsConstants ⟨buffer, actingVersion⟩ offset blockLength tokens).faults
  unread _ _ _ _ _ noComposite fixed := walkComponent_unread noComposite fixed

end WireSchema
