/-
Module: WireSchema.Token.Spans
Purpose: Each closing token belongs to the latest token that opened the same component and is still
  open; the two carry the number of tokens from the one to the other, both counted.  Components are
  matched independently of each other.
Main exports: Pairing, Pairing.ofTokens, withSpans
-/
import WireSchema.SchemaError
import WireSchema.Token

namespace WireSchema

/-!
The measuring stops at a closing token without a partner.  The pairs found before it keep their
new spans, and so does everything when a component is still open at the end of the list.
-/

/-- What matching the tokens of a list found: the indices of each pair, in the order of the closing
tokens, and what stopped it. -/
structure Pairing where
  pairs : List (Nat × Nat)
  fault : Option SchemaError
deriving Repr, DecidableEq

namespace Pairing

/-- The fault of a list that ends while some tokens are open, the latest of them in front. -/
def unclosed (pending : List (Nat × Token)) : Option SchemaError :=
  pending.getLast?.map fun (index, token) => .unclosedBegin token.signal token.name index

/-- Match the tokens from an index on, given the open ones before it, the latest in front. -/
def scan (index : Nat) (pending : List (Nat × Token)) : List Token → Pairing
  | [] => ⟨[], unclosed pending⟩
  | token :: rest =>
    if token.signal.opens?.isSome then scan (index + 1) ((index, token) :: pending) rest
    else
      match token.signal.closes? with
      | none => scan (index + 1) pending rest
      | some component =>
        let belongs := fun candidate : Nat × Token =>
          candidate.2.signal.opens? == some component
        match pending.find? belongs with
        | none => ⟨[], some (.unmatchedEnd token.signal token.name index)⟩
        | some (opening, _) =>
          let later := scan (index + 1) (pending.eraseP belongs) rest
          ⟨(opening, index) :: later.pairs, later.fault⟩

/-- Match the tokens of a whole list. -/
def ofTokens (tokens : List Token) : Pairing :=
  scan 0 [] tokens

/-- The tokens with the span of one pair written onto both of its ends. -/
def writePair (tokens : Array Token) (pair : Nat × Nat) : Array Token :=
  let span := Int32.ofNat (pair.2 - pair.1 + 1)
  (tokens.modify pair.1 (Token.withSpan · span)).modify pair.2 (Token.withSpan · span)

end Pairing

/-- The tokens with every span that could be measured, and what stopped the measuring. -/
def measureSpans (tokens : List Token) : List Token × Option SchemaError :=
  let pairing := Pairing.ofTokens tokens
  ((pairing.pairs.foldl Pairing.writePair tokens.toArray).toList, pairing.fault)

/-- The tokens with all their spans, if every component is opened and closed in turn. -/
def withSpans (tokens : List Token) : Except SchemaError (List Token) :=
  match measureSpans tokens with
  | (measured, none) => .ok measured
  | (_, some fault) => .error fault

end WireSchema
