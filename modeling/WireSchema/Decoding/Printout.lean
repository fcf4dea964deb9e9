/-
Module: WireSchema.Decoding.Printout
Purpose: A printout renders the events of messages as text, a line for each field.  It can take up
  message after message.  The names of the open constructs, and how many of them are composites, are
  part of it; a message that stopped at a fault leaves its own behind.
Main exports: Printout, Printout.record, Printout.recordAll
-/
import WireSchema.Decoding.Walk
import WireSchema.Text.CharacterSet

namespace WireSchema

/-!
The lines of a message look like these:

    Car.serialNumber=1234
    Car.available=T
    Car.extras: sunRoof=false sportsPack=true
    Car.engine.Booster.BoostType=NITROUS
    Car.fuelFigures Group Header : numInGroup=3

A field of a block prints under its own name, a member of a composite under that of its type.
Variable data whose bytes are no text in its character set is noted and prints nothing.
-/

/-- The text so far, the open constructs, the open composites, and the texts that were refused. -/
structure Printout where
  text : String := ""
  scope : List String := []
  compositeLevel : Nat := 0
  errors : List Text.TextError := []
deriving Repr, DecidableEq

namespace Printout

/-- The printout with some text at its end, after the names of the open constructs. -/
def write (printout : Printout) (content : String) : Printout :=
  { printout with text := printout.scope.foldl String.append printout.text ++ content ++ "\n" }

/-- The printout with the line of a named value. -/
def line (printout : Printout) (name value : String) : Printout :=
  printout.write (name ++ "=" ++ value)

/-- The printout inside one more construct. -/
def enter (printout : Printout) (name : String) : Printout :=
  { printout with scope := printout.scope ++ [name ++ "."] }

/-- The printout outside its latest construct. -/
def leave (printout : Printout) : Printout :=
  { printout with scope := printout.scope.dropLast }

/-- The name of a construct: that of its first token inside more than a number of composites, and
else that of the field. -/
def nameOf (printout : Printout) (threshold : Nat) (field : Token) (tokens : List Token) :
    String :=
  match tokens with
  | first :: _ => if threshold < printout.compositeLevel then first.name else field.name
  | [] => field.name

/-- Whether the bit of a choice is set in the word of a set. -/
def isChosen (word : UInt64) (choice : Token) : Bool :=
  match choice.encoding.constValue.bind Value.toUInt64? with
  | some bit => word.toNat.testBit bit.toNat
  | none => false

/-- The choices of a set, each with whether it is made. -/
def choicesText (tokens : List Token) (word : UInt64) : String :=
  String.join ((tokens.filter (·.signal = .choice)).map fun choice =>
    " " ++ choice.name ++ "=" ++ (if isChosen word choice then "true" else "false"))

/-- The printout after one more event. -/
def record (printout : Printout) : Event → Printout
  | .beginMessage token => printout.enter token.name
  | .endMessage _ => printout.leave
  | .encoding field typeToken value =>
    let name := if 0 < printout.compositeLevel then typeToken.name else field.name
    printout.line name (value.text typeToken.encoding.primitiveType)
  | .enumeration field tokens _ matched =>
    printout.line (printout.nameOf 0 field tokens) (matched.elim "null" Token.name)
  | .bitSet field tokens value =>
    let word := (value.first?.bind Value.toUInt64?).getD 0
    printout.write (printout.nameOf 0 field tokens ++ ":" ++ choicesText tokens word)
  | .beginComposite field tokens =>
    let deeper := { printout with compositeLevel := printout.compositeLevel + 1 }
    deeper.enter (deeper.nameOf 1 field tokens)
  | .endComposite _ _ =>
    { printout.leave with compositeLevel := printout.compositeLevel - 1 }
  | .groupHeader token count =>
    printout.write (token.name ++ " Group Header : numInGroup=" ++ toString count)
  | .beginGroup token _ _ => printout.enter token.name
  | .endGroup _ _ _ => printout.leave
  | .varData field content typeToken =>
    match Text.ofVarData field.name content typeToken.encoding.characterEncoding with
    | .ok text => printout.line field.name text
    | .error problem => { printout with errors := printout.errors ++ [problem] }

/-- The printout after some events. -/
def recordAll (printout : Printout) (events : List Event) : Printout :=
  events.foldl record printout

end Printout

end WireSchema
