/-
Module: WireSchema.Schema.ConstantEnum
Purpose: A constant field that wraps an enum names one of its values, either alone or after a dot,
  as in `Model.C`.  The enum is reduced to that one value, marked constant; it and the ends of the
  enum lose their length.  A constant encoding loses its length as well.
Main exports: refersTo, wrapsConstantEnum, reduceConstants
-/
import WireSchema.SchemaError
import WireSchema.Token
import WireSchema.Value.Text

namespace WireSchema

/-- Whether a reference such as `Model.C`, or just `C`, names a value. -/
def refersTo (reference name : String) : Bool :=
  name.toList.isSuffixOf reference.toList &&
    (let qualifier := reference.toList.take (reference.toList.length - name.toList.length)
     qualifier == [] || qualifier.getLast? == some '.')

/-- The text of the value that a constant field refers to. -/
def valueReference (field : Token) : String :=
  match field.encoding.constValue with
  | some value => value.schemaText none
  | none => ""

/-- Whether a field is constant and the token behind it opens an enum. -/
def wrapsConstantEnum (field : Token) (rest : List Token) : Bool :=
  field.signal == .beginField && field.isConstant &&
    (match rest with
     | next :: _ => next.signal == .beginEnum
     | [] => false)

/-- A constant encoding without its length; any other token as it is. -/
def emptiedConstant (token : Token) : Token :=
  if token.signal = .encoding ∧ token.isConstant then token.emptied else token

/-- The tokens with every constant reduced.  The index is that of the first token of the list. -/
def reduceConstants (index : Nat) : List Token → Except SchemaError (List Token)
  | [] => .ok []
  | token :: rest =>
    if wrapsConstantEnum token rest then
      match rest with
      | [] => .ok [token]
      | opening :: body =>
        match ending : body.dropWhile (·.signal ≠ .endEnum) with
        | [] => .error (.missingEnd .endEnum opening.name (index + 1))
        | closing :: after =>
          let values := body.takeWhile (·.signal ≠ .endEnum)
          let reference := valueReference token
          match values.find? fun value => refersTo reference value.name with
          | none => .error (.unknownConstantValue token.name reference)
          | some kept => do
            let later ← reduceConstants (index + values.length + 3) after
            .ok (token :: opening.emptied :: kept.emptied.fixed :: closing.emptied :: later)
    else do
      let later ← reduceConstants (index + 1) rest
      .ok (emptiedConstant token :: later)
termination_by tokens => tokens.length
decreasing_by
  · have shorter := (List.dropWhile_suffix (l := body) (·.signal ≠ .endEnum)).length_le
    simp only [ending, List.length_cons] at shorter ⊢
    omega
  · simp

end WireSchema
