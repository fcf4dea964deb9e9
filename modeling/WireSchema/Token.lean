/-
Module: WireSchema.Token
Purpose: A token is one node of a flat schema.  The token that opens a construct and the one that
  closes it carry the same name; both carry the span of the construct, the number of its tokens with
  both ends counted, once that has been measured.
Main exports: Token, Token.span, Token.arrayLength, Token.agrees, Token.isNamed
-/
import WireSchema.Encoding
import WireSchema.Signal

namespace WireSchema

/-!
A length or an offset of minus one marks what is only known while a message is read.
-/

/-- A node of a flat schema. -/
structure Token where
  signal : Signal
  name : String
  description : Option String := none
  id : Int32 := -1
  version : Int32 := 0
  encodedLength : Int32 := 0
  offset : Int32 := 0
  storedSpan : Int32 := 1
  encoding : Encoding := {}
deriving Repr, DecidableEq, Inhabited

namespace Token

/-- The length or offset of what is only positioned while a message is read. -/
def variableLength : Int32 := -1

/-- The number of tokens from this one to the end of its construct, at least one. -/
def span (token : Token) : Nat :=
  max token.storedSpan.toNatClampNeg 1

/-- The number of scalars in the encoded length. -/
def arrayLength (token : Token) : Nat :=
  match token.encoding.primitiveType with
  | some type =>
    if 0 < token.encodedLength then token.encodedLength.toNatClampNeg / type.size else 1
  | none => 1

/-- Whether the schema fixes the value of the token. -/
def isConstant (token : Token) : Bool :=
  token.encoding.presence == .constant

/-- Whether the value of the token may be absent. -/
def isOptional (token : Token) : Bool :=
  token.encoding.presence == .optional

/-- The token with a measured span. -/
def withSpan (token : Token) (span : Int32) : Token :=
  { token with storedSpan := span }

/-- The token without bytes on the wire. -/
def emptied (token : Token) : Token :=
  { token with encodedLength := 0 }

/-- The token with a fixed value. -/
def fixed (token : Token) : Token :=
  { token with encoding := { token.encoding with presence := .constant } }

/-- Whether two tokens are equal, their values compared as values. -/
def agrees (first second : Token) : Bool :=
  first.signal == second.signal && first.name == second.name &&
    first.description == second.description && first.id == second.id &&
    first.version == second.version && first.encodedLength == second.encodedLength &&
    first.offset == second.offset && first.storedSpan == second.storedSpan &&
    first.encoding.agrees second.encoding

/-- Whether the token opens or closes a construct of a signal and a name. -/
def isNamed (signal : Signal) (name : String) (token : Token) : Bool :=
  token.signal == signal && token.name == name

theorem span_pos (token : Token) : 0 < token.span :=
  Nat.lt_of_lt_of_le Nat.zero_lt_one (Nat.le_max_right _ _)

theorem isNamed_iff {signal : Signal} {name : String} {token : Token} :
    isNamed signal name token = true ↔ token.signal = signal ∧ token.name = name := by
  rw [isNamed, Bool.and_eq_true, beq_iff_eq, beq_iff_eq]

end Token

end WireSchema
