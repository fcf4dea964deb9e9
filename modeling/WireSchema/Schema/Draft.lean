/-
Module: WireSchema.Schema.Draft
Purpose: A draft collects the messages of a schema.  A message that is added is checked, its types
  are captured, its constants are reduced and its spans are measured; only when all of that succeeds
  does the draft change.
Main exports: checkMessage, decideType, SchemaDraft, SchemaDraft.addMessage, SchemaDraft.build
-/
import WireSchema.Schema.Compiled
import WireSchema.Schema.ConstantEnum
import WireSchema.Schema.TypeCapture
import WireSchema.Token.Spans

namespace WireSchema

/-!
A type captured again with the same layout keeps its first definition.  An enum that has already
been reduced to one constant value stands in only while nothing else is known under its name.
-/

/-- Whether two types have the same layout.  Where the outermost pair of tokens is placed, and all
numbers and versions, depend on the use of a type and do not count. -/
def sameLayout (first second : List Token) : Bool :=
  first.length == second.length &&
    (first.zip second).zipIdx.all fun ((one, other), index) =>
      one.signal == other.signal && one.name == other.name &&
        one.encodedLength == other.encodedLength && one.encoding.agrees other.encoding &&
        (index == 0 || index == first.length - 1 || one.offset == other.offset)

/-- Whether a type is an enum that was reduced to the value of a constant field. -/
def isReducedEnum (tokens : List Token) : Bool :=
  (match tokens with
    | first :: _ => first.signal == .beginEnum
    | [] => false) &&
    tokens.any fun token => token.signal == .validValue && token.isConstant

/-- Find the first constant without a value. -/
def checkConstants (index : Nat) : List Token → Except SchemaError Unit
  | [] => .ok ()
  | token :: rest =>
    if token.isConstant ∧ token.encoding.constValue = none then
      .error (.missingConstantValue token.name index)
    else checkConstants (index + 1) rest

/-- Check that tokens are framed as a message and that every constant has a value. -/
def checkMessage (messageId : Int64) (tokens : List Token) : Except SchemaError Unit :=
  match tokens.head?, tokens.getLast? with
  | some first, some last =>
    if tokens.length < 2 ∨ first.signal ≠ .beginMessage ∨ last.signal ≠ .endMessage then
      .error (.notAMessage messageId first.signal last.signal)
    else checkConstants 0 tokens
  | _, _ => .error (.emptyMessage messageId)

/-- What a newly captured type does to the definition under its name. -/
inductive TypeDecision where
  | keep
  | define
  | conflict
deriving Repr, DecidableEq

/-- Weigh a captured type against the definition that its name already has. -/
def decideType (policy : DuplicatePolicy) (existing : Option (List Token))
    (captured : List Token) : TypeDecision :=
  match existing with
  | none => .define
  | some known =>
    if sameLayout known captured || isReducedEnum captured then .keep
    else if !isReducedEnum known && policy == .reject then .conflict
    else .define

/-- A schema while its messages are collected. -/
structure SchemaDraft where
  options : SchemaOptions := {}
  identity : SchemaIdentity
  headerTokens : List Token
  messages : Registry Int64 (List Token) := {}
  types : Registry String (List Token) := {}
deriving Repr

namespace SchemaDraft

/-- Add a captured type to those found so far in the same message. -/
def registerType (draft : SchemaDraft) (found : Registry String (List Token))
    (captured : String × List Token) : Except SchemaError (Registry String (List Token)) := do
  let measured ← withSpans captured.2
  let existing := found.get? captured.1 <|> draft.types.get? captured.1
  match decideType draft.options.duplicateTypes existing measured with
  | .keep => .ok found
  | .define => .ok (found.insert captured.1 measured)
  | .conflict => .error (.conflictingType captured.1)

/-- The draft with a message under a number. -/
def addMessage (draft : SchemaDraft) (messageId : Int64) (tokens : List Token) :
    Except SchemaError SchemaDraft := do
  checkMessage messageId tokens
  let captured ← typesOf tokens
  let reduced ← reduceConstants 0 tokens
  let measured ← withSpans reduced
  let found ← captured.foldlM draft.registerType {}
  .ok { draft with
    types := draft.types.extend found
    messages := draft.messages.insert messageId measured }

/-- The schema that the draft has become. -/
def build (draft : SchemaDraft) : Except SchemaError Schema := do
  let measured ← withSpans draft.headerTokens
  let header ← HeaderStructure.ofTokens measured
  .ok {
    identity := draft.identity
    namespaces := draft.identity.namespaces draft.options.collapseNamespaces
    header
    messages := draft.messages
    types := draft.types }

end SchemaDraft

end WireSchema
