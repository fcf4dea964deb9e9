/-
Module: WireSchema.Signal
Purpose: A schema is a tree, and a list of tokens is its flat form.  The signal of a token says what
  it does in that form: it opens a construct, closes one, or is a leaf.  The constructs that can be
  opened and closed are the components.
Main exports: Signal, Component, Signal.opens?, Signal.closes?, Signal.ofCode?_code
-/

namespace WireSchema

/-- The role of a token in a flat schema. -/
inductive Signal where
  | beginMessage
  | endMessage
  | beginComposite
  | endComposite
  | beginField
  | endField
  | beginGroup
  | endGroup
  | beginEnum
  | validValue
  | endEnum
  | beginSet
  | choice
  | endSet
  | beginVarData
  | endVarData
  | encoding
deriving Repr, DecidableEq, Inhabited

/-- A construct with an opening and a closing token. -/
inductive Component where
  | message
  | composite
  | field
  | group
  | enumeration
  | set
  | varData
deriving Repr, DecidableEq, Inhabited

namespace Component

/-- Every component. -/
def all : List Component :=
  [.message, .composite, .field, .group, .enumeration, .set, .varData]

/-- The position among all components. -/
def index : Component → Nat
  | .message => 0
  | .composite => 1
  | .field => 2
  | .group => 3
  | .enumeration => 4
  | .set => 5
  | .varData => 6

/-- The signal that opens the component. -/
def opening : Component → Signal
  | .message => .beginMessage
  | .composite => .beginComposite
  | .field => .beginField
  | .group => .beginGroup
  | .enumeration => .beginEnum
  | .set => .beginSet
  | .varData => .beginVarData

/-- The signal that closes the component. -/
def closing : Component → Signal
  | .message => .endMessage
  | .composite => .endComposite
  | .field => .endField
  | .group => .endGroup
  | .enumeration => .endEnum
  | .set => .endSet
  | .varData => .endVarData

end Component

namespace Signal

/-- Every signal, in the order of the codes. -/
def all : List Signal :=
  [.beginMessage, .endMessage, .beginComposite, .endComposite, .beginField, .endField,
    .beginGroup, .endGroup, .beginEnum, .validValue, .endEnum, .beginSet, .choice, .endSet,
    .beginVarData, .endVarData, .encoding]

/-- The component that the signal opens, if it opens one. -/
def opens? : Signal → Option Component
  | .beginMessage => some .message
  | .beginComposite => some .composite
  | .beginField => some .field
  | .beginGroup => some .group
  | .beginEnum => some .enumeration
  | .beginSet => some .set
  | .beginVarData => some .varData
  | _ => none

/-- The component that the signal closes, if it closes one. -/
def closes? : Signal → Option Component
  | .endMessage => some .message
  | .endComposite => some .composite
  | .endField => some .field
  | .endGroup => some .group
  | .endEnum => some .enumeration
  | .endSet => some .set
  | .endVarData => some .varData
  | _ => none

/-- The code byte of the stored form. -/
def code : Signal → UInt8
  | .beginMessage => 1
  | .endMessage => 2
  | .beginComposite => 3
  | .endComposite => 4
  | .beginField => 5
  | .endField => 6
  | .beginGroup => 7
  | .endGroup => 8
  | .beginEnum => 9
  | .validValue => 10
  | .endEnum => 11
  | .beginSet => 12
  | .choice => 13
  | .endSet => 14
  | .beginVarData => 15
  | .endVarData => 16
  | .encoding => 17

/-- The signal of a given code byte. -/
def ofCode? (code : UInt8) : Option Signal :=
  all.find? fun signal => signal.code == code

/-- The name in messages. -/
def name : Signal → String
  | .beginMessage => "BEGIN_MESSAGE"
  | .endMessage => "END_MESSAGE"
  | .beginComposite => "BEGIN_COMPOSITE"
  | .endComposite => "END_COMPOSITE"
  | .beginField => "BEGIN_FIELD"
  | .endField => "END_FIELD"
  | .beginGroup => "BEGIN_GROUP"
  | .endGroup => "END_GROUP"
  | .beginEnum => "BEGIN_ENUM"
  | .validValue => "VALID_VALUE"
  | .endEnum => "END_ENUM"
  | .beginSet => "BEGIN_SET"
  | .choice => "CHOICE"
  | .endSet => "END_SET"
  | .beginVarData => "BEGIN_VAR_DATA"
  | .endVarData => "END_VAR_DATA"
  | .encoding => "ENCODING"

/-- The signal of a given name. -/
def ofName? (name : String) : Option Signal :=
  all.find? fun signal => signal.name == name

theorem ofCode?_code (signal : Signal) : ofCode? signal.code = some signal := by
  cases signal <;> decide

theorem opens?_eq_some_iff (signal : Signal) (component : Component) :
    signal.opens? = some component ↔ component.opening = signal := by
  cases signal <;> cases component <;> decide

theorem closes?_eq_some_iff (signal : Signal) (component : Component) :
    signal.closes? = some component ↔ component.closing = signal := by
  cases signal <;> cases component <;> decide

end Signal

end WireSchema
