/-
Module: WireSchema.Token.Sections
Purpose: The body of a message lists its fields, then its groups, then its variable data.  A section
  is a run of constructs that one signal opens; the spans of their opening tokens say where each
  ends.
Main exports: collectFields, collectGroups, collectVarData, messageBody, findEndSignal
-/
import WireSchema.Token

namespace WireSchema

/-- The tokens of the constructs at the start of a list that a signal opens, one after another. -/
def leadingConstructs (signal : Signal) : List Token → List Token
  | [] => []
  | token :: rest =>
    if token.signal = signal then
      (token :: rest).take token.span ++ leadingConstructs signal (rest.drop (token.span - 1))
    else []
termination_by tokens => tokens.length
decreasing_by
  simp only [List.length_drop, List.length_cons]
  omega

/-- The tokens of the section that starts at an index, and the index behind them. -/
def collectSection (signal : Signal) (tokens : List Token) (index : Nat) : Nat × List Token :=
  let collected := leadingConstructs signal (tokens.drop index)
  (index + collected.length, collected)

/-- The fields from an index on. -/
def collectFields : List Token → Nat → Nat × List Token :=
  collectSection .beginField

/-- The groups from an index on. -/
def collectGroups : List Token → Nat → Nat × List Token :=
  collectSection .beginGroup

/-- The variable data from an index on. -/
def collectVarData : List Token → Nat → Nat × List Token :=
  collectSection .beginVarData

/-- The tokens between the first and the last. -/
def messageBody (tokens : List Token) : List Token :=
  (tokens.drop 1).dropLast

/-- The index of the first token from a start on, the last token left out, that has a signal and a
name; the index of the last token where there is none. -/
def findEndSignal (tokens : List Token) (start : Nat) (signal : Signal) (name : String) : Nat :=
  match (tokens.dropLast.drop start).findIdx? (Token.isNamed signal name) with
  | some distance => start + distance
  | none => tokens.length - 1

end WireSchema
