/-
Module: WireSchema.Decoding.Walk
Purpose: Reading a message delivers events in the order of the document and ends with a result or
  with a fault.  A walk is the record of both: the events delivered, all of them or those up to the
  fault, and the outcome.
Main exports: Event, Walk, Walk.bracket, Walk.iterate
-/
import WireSchema.Decoding.AccessError
import WireSchema.Decoding.FieldValue
import WireSchema.Token

namespace WireSchema

/-!
Walks are composed in sequence, and `Walk.bracket` puts a walk between an opening and a closing
event.  When the inner walk fails the closing event is left out, and the fault gains the name of
the construct.
-/

/-- What a reader of a message is told.  The field is always the one that is being read, also for
the members of a composite; lists of tokens hold a whole construct. -/
inductive Event where
  | beginMessage (token : Token)
  | endMessage (token : Token)
  | encoding (field typeToken : Token) (value : FieldValue)
  | enumeration (field : Token) (tokens : List Token) (value : FieldValue) (matched : Option Token)
  | bitSet (field : Token) (tokens : List Token) (value : FieldValue)
  | beginComposite (field : Token) (tokens : List Token)
  | endComposite (field : Token) (tokens : List Token)
  | groupHeader (token : Token) (count : Nat)
  | beginGroup (token : Token) (index count : Nat)
  | endGroup (token : Token) (index count : Nat)
  | varData (field : Token) (content : List UInt8) (typeToken : Token)
deriving Repr, DecidableEq

/-- The events delivered, and how it ended. -/
structure Walk (α : Type) where
  events : List Event
  outcome : Except ScopedError α

namespace Walk

/-- A walk without events that ends well. -/
def done {α : Type} (result : α) : Walk α :=
  ⟨[], .ok result⟩

/-- A walk of a single event. -/
def emit (event : Event) : Walk Unit :=
  ⟨[event], .ok ()⟩

/-- A step that delivers nothing. -/
def check {α : Type} (step : Except AccessError α) : Walk α :=
  ⟨[], step.mapError (ScopedError.mk [])⟩

/-- A walk, and then another one if it ended well. -/
def andThen {α β : Type} (first : Walk α) (next : α → Walk β) : Walk β :=
  match first.outcome with
  | .error problem => ⟨first.events, .error problem⟩
  | .ok result =>
    let second := next result
    ⟨first.events ++ second.events, second.outcome⟩

instance : Monad Walk where
  pure := done
  bind := andThen

/-- A walk between two events that open and close a named construct. -/
def bracket {α : Type} (opening closing : Event) (name : String) (inner : Walk α) : Walk α :=
  match inner.outcome with
  | .ok result => ⟨opening :: (inner.events ++ [closing]), .ok result⟩
  | .error problem => ⟨opening :: inner.events, .error (problem.inside name)⟩

/-- The rounds of `iterate` from an index on, the events of the rounds before it at hand, the
latest in front. -/
def rounds {σ : Type} (step : Nat → σ → Walk σ) (earlier : List (List Event)) (index : Nat) :
    (count : Nat) → σ → Walk σ
  | 0, state => ⟨earlier.reverse.flatten, .ok state⟩
  | count + 1, state =>
    let round := step index state
    match round.outcome with
    | .ok next => rounds step (round.events :: earlier) (index + 1) count next
    | .error problem => ⟨(round.events :: earlier).reverse.flatten, .error problem⟩

/-- A number of walks one after another, each with its index and the state that the one before it
left. -/
def iterate {σ : Type} (count : Nat) (step : Nat → σ → Walk σ) (state : σ) : Walk σ :=
  rounds step [] 0 count state

end Walk

end WireSchema
