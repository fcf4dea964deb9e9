/-
Module: WireSchema.Proofs.NamedTree
Purpose: A tree tells by its shape which token closes a construct.  The types of a message are found
  by name, and so both ends of a construct should carry the same one.  Where they do, the flat form
  of the tree is that of a message of a schema, in which every type that stands in the tree is used
  (`MessageTree.Named.messageTokens`).
Main exports: MessageTree.Named, SchemaShaped, MessageTree.Named.messageTokens
-/
import WireSchema.Proofs.LoadedMessage

namespace WireSchema

/-! ### Names -/

mutual

/-- Whether both ends of each construct in a type carry one name. -/
def TypeTree.Named : TypeTree → Prop
  | .encoding _ => True
  | .enumeration tree => tree.closing.1.name = tree.opening.1.name
  | .set tree => tree.closing.1.name = tree.opening.1.name
  | .composite opening members closing =>
    closing.1.name = opening.1.name ∧ TypeTree.MembersNamed members

/-- The same for the members of a composite. -/
def TypeTree.MembersNamed : List TypeTree → Prop
  | [] => True
  | member :: members => member.Named ∧ TypeTree.MembersNamed members

end

/-- Whether both ends of a field, and of each construct in it, carry one name. -/
structure FieldTree.Named (tree : FieldTree) : Prop where
  ends : tree.closing.1.name = tree.opening.1.name
  type : tree.type.Named

/-- Whether both ends of a composite of two encodings carry one name. -/
def EncodingPair.Named (tree : EncodingPair) : Prop :=
  tree.closing.1.name = tree.opening.1.name

/-- Whether both ends of variable data, and of their layout, carry one name. -/
structure VarDataTree.Named (tree : VarDataTree) : Prop where
  ends : tree.closing.1.name = tree.opening.1.name
  layout : tree.layout.Named

mutual

/-- Whether both ends of a group, and of each construct in it, carry one name. -/
def GroupTree.Named : GroupTree → Prop
  | .group opening dimensions body closing =>
    closing.1.name = opening.1.name ∧ dimensions.Named ∧ body.Named

/-- The same for groups, one after another. -/
def GroupTree.ListNamed : List GroupTree → Prop
  | [] => True
  | group :: groups => group.Named ∧ GroupTree.ListNamed groups

/-- The same for a body. -/
def BlockTree.Named : BlockTree → Prop
  | .block fields groups varData =>
    (∀ field ∈ fields, field.Named) ∧ GroupTree.ListNamed groups ∧ ∀ data ∈ varData, data.Named

end

/-- Whether both ends of a message, and of each construct in it, carry one name. -/
structure MessageTree.Named (tree : MessageTree) : Prop where
  ends : tree.closing.1.name = tree.opening.1.name
  body : tree.body.Named

/-! ### Tokens that use some types -/

/-- Whether tokens are those of a schema, whatever the uses of types among them are. -/
def SchemaShaped (insideType : Bool) (tokens : List Token) : Prop :=
  ∃ uses, SchemaTokens insideType tokens uses

theorem SchemaTokens.append {insideType : Bool} {first second : List Token}
    {uses otherUses : List TypeUse} (one : SchemaTokens insideType first uses)
    (other : SchemaTokens insideType second otherUses) :
    SchemaTokens insideType (first ++ second) (uses ++ otherUses) := by
  induction one with
  | nil => exact other
  | leaf opensNothing closesNothing _ ih => exact .leaf opensNothing closesNothing (ih other)
  | construct opens closes noMessage named plain inside _ _ ihLater =>
      rw [List.append_assoc, List.append_assoc]
      exact .construct opens closes noMessage named plain inside (ihLater other)
  | constantField isField constant opens areValues closes named endsField fieldNamed inside _ _
      ihLater =>
      rw [List.append_assoc, List.cons_append, List.append_assoc]
      exact .constantField isField constant opens areValues closes named endsField fieldNamed inside
        (ihLater other)

namespace SchemaShaped

variable {insideType : Bool}

theorem nil : SchemaShaped insideType [] :=
  ⟨[], .nil⟩

theorem append {first second : List Token} (one : SchemaShaped insideType first)
    (other : SchemaShaped insideType second) : SchemaShaped insideType (first ++ second) := by
  obtain ⟨uses, schema⟩ := one
  obtain ⟨otherUses, otherSchema⟩ := other
  exact ⟨_, schema.append otherSchema⟩

theorem flatMap {α : Type} {tokens : α → List Token} {parts : List α}
    (shaped : ∀ part ∈ parts, SchemaShaped insideType (tokens part)) :
    SchemaShaped insideType (parts.flatMap tokens) := by
  induction parts with
  | nil => exact .nil
  | cons part parts ih =>
      rw [List.forall_mem_cons] at shaped
      exact shaped.1.append (ih shaped.2)

/-- Tokens with one signal that neither opens nor closes anything. -/
theorem leaves {signal : Signal} (opensNothing : signal.opens? = none)
    (closesNothing : signal.closes? = none) (leaves : List (TokenOf signal)) :
    SchemaShaped insideType (leaves.map (·.1)) := by
  refine ⟨[], ?_⟩
  induction leaves with
  | nil => exact .nil
  | cons leaf leaves ih =>
      refine .leaf ?_ ?_ ih
      · rw [leaf.signal_eq, opensNothing]
      · rw [leaf.signal_eq, closesNothing]

/-- A construct that is no constant field around an enum. -/
theorem construct {first last : Signal} (component : Component)
    (opens : first.opens? = some component) (closes : last.closes? = some component)
    (noMessage : component ≠ .message) {opening : TokenOf first} {closing : TokenOf last}
    {inner : List Token} (named : closing.1.name = opening.1.name)
    (plain : wrapsConstantEnum opening inner = false)
    (inside : SchemaShaped (insideType || component.isType) inner) :
    SchemaShaped insideType (enclose opening inner closing) := by
  obtain ⟨uses, schema⟩ := inside
  exact ⟨_, .alone (by rw [opening.signal_eq, opens]) (by rw [closing.signal_eq, closes]) noMessage
    named plain schema⟩

/-- A construct other than a field. -/
theorem enclosed {first last : Signal} (component : Component)
    (opens : first.opens? = some component) (closes : last.closes? = some component)
    (noMessage : component ≠ .message) (noField : first ≠ .beginField) {opening : TokenOf first}
    {closing : TokenOf last} {inner : List Token} (named : closing.1.name = opening.1.name)
    (inside : SchemaShaped (insideType || component.isType) inner) :
    SchemaShaped insideType (enclose opening inner closing) :=
  .construct component opens closes noMessage named
    (wrapsConstantEnum_of_ne (by rwa [opening.signal_eq]) inner) inside

end SchemaShaped

/-! ### Trees -/

theorem EnumTree.schemaShaped {insideType : Bool} {tree : EnumTree}
    (named : tree.closing.1.name = tree.opening.1.name) : SchemaShaped insideType tree.tokens :=
  .enclosed .enumeration rfl rfl (by decide) (by decide) named (.leaves rfl rfl tree.values)

theorem SetTree.schemaShaped {insideType : Bool} {tree : SetTree}
    (named : tree.closing.1.name = tree.opening.1.name) : SchemaShaped insideType tree.tokens :=
  .enclosed .set rfl rfl (by decide) (by decide) named (.leaves rfl rfl tree.choices)

mutual

theorem TypeTree.Named.schemaShaped {insideType : Bool} : ∀ {tree : TypeTree}, tree.Named →
    SchemaShaped insideType tree.tokens
  | .encoding leaf, _ => .leaves rfl rfl [⟨leaf.1, leaf.2.1⟩]
  | .enumeration _, named => EnumTree.schemaShaped named
  | .set _, named => SetTree.schemaShaped named
  | .composite _ _ _, named =>
    .enclosed .composite rfl rfl (by decide) (by decide) named.1
      (TypeTree.MembersNamed.schemaShaped named.2)

theorem TypeTree.MembersNamed.schemaShaped {insideType : Bool} : ∀ {members : List TypeTree},
    TypeTree.MembersNamed members → SchemaShaped insideType (TypeTree.memberTokens members)
  | [], _ => .nil
  | _ :: _, named =>
    (TypeTree.Named.schemaShaped named.1).append (TypeTree.MembersNamed.schemaShaped named.2)

end

/-- A field around an enum is fixed to one of its values if it is constant. -/
theorem FieldTree.schemaShaped_enumeration {opening : TokenOf .beginField} {tree : EnumTree}
    {closing : TokenOf .endField} (ends : closing.1.name = opening.1.name)
    (named : tree.closing.1.name = tree.opening.1.name) :
    SchemaShaped false (enclose opening tree.tokens closing) := by
  by_cases constant : opening.1.isConstant = true
  · have areValues : ∀ value ∈ tree.values.map (·.1), value.signal = .validValue :=
      List.forall_mem_map.mpr fun value _ => value.signal_eq
    have whole := SchemaTokens.constantField opening.signal_eq constant tree.opening.signal_eq
      areValues tree.closing.signal_eq named closing.signal_eq ends .nil .nil
    rw [List.append_nil, List.append_nil] at whole
    exact ⟨_, whole⟩
  · refine .construct .field rfl rfl (by decide) ends ?_ (EnumTree.schemaShaped named)
    simp [wrapsConstantEnum, constant]

theorem FieldTree.Named.schemaShaped {tree : FieldTree} (named : tree.Named) :
    SchemaShaped false tree.tokens := by
  obtain ⟨opening, type, closing⟩ := tree
  obtain ⟨ends, typeNamed⟩ := named
  cases type with
  | enumeration tree => exact FieldTree.schemaShaped_enumeration ends typeNamed
  | encoding leaf =>
      refine .construct .field rfl rfl (by decide) ends ?_ typeNamed.schemaShaped
      simp [wrapsConstantEnum, TypeTree.tokens, leaf.2.1]
  | set tree =>
      refine .construct .field rfl rfl (by decide) ends ?_ typeNamed.schemaShaped
      simp [wrapsConstantEnum, TypeTree.tokens, SetTree.tokens, enclose, tree.opening.signal_eq]
  | composite first members last =>
      refine .construct .field rfl rfl (by decide) ends ?_ typeNamed.schemaShaped
      simp [wrapsConstantEnum, TypeTree.tokens, enclose, first.signal_eq]

theorem EncodingPair.Named.schemaShaped {insideType : Bool} {tree : EncodingPair}
    (named : tree.Named) : SchemaShaped insideType tree.tokens :=
  .enclosed .composite rfl rfl (by decide) (by decide) named
    (.leaves rfl rfl [tree.first, tree.second])

theorem VarDataTree.Named.schemaShaped {tree : VarDataTree} (named : tree.Named) :
    SchemaShaped false tree.tokens :=
  .enclosed .varData rfl rfl (by decide) (by decide) named.ends named.layout.schemaShaped

mutual

theorem GroupTree.Named.schemaShaped : ∀ {tree : GroupTree}, tree.Named →
    SchemaShaped false tree.tokens
  | .group _ _ _ _, named =>
    .enclosed .group rfl rfl (by decide) (by decide) named.1
      (named.2.1.schemaShaped.append (BlockTree.Named.schemaShaped named.2.2))

theorem GroupTree.ListNamed.schemaShaped : ∀ {groups : List GroupTree},
    GroupTree.ListNamed groups → SchemaShaped false (GroupTree.listTokens groups)
  | [], _ => .nil
  | _ :: _, named =>
    (GroupTree.Named.schemaShaped named.1).append (GroupTree.ListNamed.schemaShaped named.2)

theorem BlockTree.Named.schemaShaped : ∀ {tree : BlockTree}, tree.Named →
    SchemaShaped false tree.tokens
  | .block _ _ _, named =>
    (SchemaShaped.flatMap fun field member => (named.1 field member).schemaShaped).append
      ((GroupTree.ListNamed.schemaShaped named.2.1).append
        (.flatMap fun data member => (named.2.2 data member).schemaShaped))

end

/-- The flat form of a tree whose constructs carry one name on both ends is a message of a schema,
under the number of its opening token. -/
theorem MessageTree.Named.messageTokens {tree : MessageTree} (named : tree.Named) :
    ∃ uses, MessageTokens tree.opening.1.id.toInt64 tree.tokens uses := by
  obtain ⟨uses, schema⟩ := named.body.schemaShaped
  exact ⟨uses, tree.opening, _, tree.closing, rfl, tree.opening.signal_eq, tree.closing.signal_eq,
    named.ends, rfl, schema⟩

theorem orderMessage_named : orderMessage.Named where
  ends := rfl
  body := by
    simp only [orderMessage, BlockTree.Named, List.forall_mem_cons, GroupTree.ListNamed,
      GroupTree.Named, List.not_mem_nil, false_implies, implies_true, and_true, true_and]
    exact ⟨⟨⟨rfl, rfl, trivial, rfl, trivial⟩, ⟨rfl, rfl⟩⟩, rfl, ⟨rfl, rfl⟩⟩

end WireSchema
