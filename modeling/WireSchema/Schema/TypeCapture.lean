/-
Module: WireSchema.Schema.TypeCapture
Purpose: Every composite, enum and set in the tokens of a message is a type, known by its name.  A
  type reaches to the first closing token of its name.  The inside of a composite is searched for
  further types; an enum or a set holds none.
Main exports: captureTypes, typesOf
-/
import WireSchema.SchemaError
import WireSchema.Token

namespace WireSchema

/-- The signal that closes a type, for a signal that opens one. -/
def typeClosing? : Signal → Option Signal
  | .beginComposite => some .endComposite
  | .beginEnum => some .endEnum
  | .beginSet => some .endSet
  | _ => none

/-- The types that begin among the first `limit` tokens of a list, each with its tokens, outer ones
before inner ones.  The index is that of the first token of the list. -/
def captureTypes (index limit : Nat) (tokens : List Token) :
    Except SchemaError (List (String × List Token)) :=
  match limit, tokens with
  | 0, _ => .ok []
  | _, [] => .ok []
  | limit + 1, token :: rest =>
    match typeClosing? token.signal with
    | none => captureTypes (index + 1) limit rest
    | some closing =>
      match rest.findIdx? (Token.isNamed closing token.name) with
      | none => .error (.missingEnd closing token.name index)
      | some distance => do
        let inner ←
          if token.signal = .beginComposite then captureTypes (index + 1) distance rest
          else .ok []
        let later ←
          captureTypes (index + distance + 2) (limit - (distance + 1)) (rest.drop (distance + 1))
        .ok ((token.name, token :: rest.take (distance + 1)) :: (inner ++ later))
termination_by tokens.length
decreasing_by
  all_goals simp only [List.length_drop, List.length_cons]
  all_goals omega

/-- The types of a whole message. -/
def typesOf (tokens : List Token) : Except SchemaError (List (String × List Token)) :=
  captureTypes 0 tokens.length tokens

end WireSchema
