/-
Module: WireSchema.Schema.Compiled
Purpose: A compiled schema holds the header that all messages share, the tokens of every message by
  its number, the tokens of every named type, and what the schema says about itself.
Main exports: DuplicatePolicy, SchemaOptions, SchemaIdentity, Schema
-/
import WireSchema.Schema.HeaderStructure
import WireSchema.Schema.Registry

namespace WireSchema

/-- What becomes of a type that is found again under a name already taken, with another layout. -/
inductive DuplicatePolicy where
  | lastWins
  | reject
deriving Repr, DecidableEq, Inhabited

/-- The choices that a schema can be put together with. -/
structure SchemaOptions where
  collapseNamespaces : Bool := false
  duplicateTypes : DuplicatePolicy := .lastWins
deriving Repr, DecidableEq, Inhabited

/-- What a schema says about itself. -/
structure SchemaIdentity where
  packageName : String
  namespaceName : Option String := none
  id : Int32 := 0
  version : Int32 := 0
  semanticVersion : Option String := none
deriving Repr, DecidableEq, Inhabited

/-- The namespace, or else the package. -/
def SchemaIdentity.applicableNamespace (identity : SchemaIdentity) : String :=
  identity.namespaceName.getD identity.packageName

/-- The parts of the applicable namespace: those between its dots, or a single one with the dots
replaced. -/
def SchemaIdentity.namespaces (identity : SchemaIdentity) (collapse : Bool) : List String :=
  if collapse then
    [String.ofList (identity.applicableNamespace.toList.map fun character =>
      if character = '.' then '_' else character)]
  else identity.applicableNamespace.splitOn "."

/-- A schema ready for use. -/
structure Schema where
  identity : SchemaIdentity
  namespaces : List String
  header : HeaderStructure
  messages : Registry Int64 (List Token)
  types : Registry String (List Token)
deriving Repr

end WireSchema
