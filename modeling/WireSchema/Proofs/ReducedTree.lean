/-
Module: WireSchema.Proofs.ReducedTree
Purpose: `reduced` takes the room from every constant of a tree: a constant encoding loses its
  length, and the enum of a constant field is reduced to the one value that the field refers to.
  The flat form of the reduced tree is what the reduction of constants makes of the flat form of the
  tree (`MessageTree.reduceConstants_tokens`).
Main exports: MessageTree.reduced, ReducesTo, MessageTree.reduceConstants_tokens
-/
import WireSchema.Proofs.SchemaTree
import WireSchema.Schema.ConstantEnum

namespace WireSchema

@[simp] theorem signal_emptiedConstant (token : Token) :
    (emptiedConstant token).signal = token.signal := by
  unfold emptiedConstant
  split <;> rfl

@[simp] theorem span_emptiedConstant (token : Token) :
    (emptiedConstant token).span = token.span := by
  unfold emptiedConstant
  split <;> rfl

@[simp] theorem encoding_emptiedConstant (token : Token) :
    (emptiedConstant token).encoding = token.encoding := by
  unfold emptiedConstant
  split <;> rfl

@[simp] theorem offset_emptiedConstant (token : Token) :
    (emptiedConstant token).offset = token.offset := by
  unfold emptiedConstant
  split <;> rfl

/-- Only encodings can lose their length. -/
theorem emptiedConstant_of_ne {token : Token} (other : token.signal ≠ .encoding) :
    emptiedConstant token = token := by
  rw [emptiedConstant, if_neg fun both => other both.1]

/-! ### Reducing a tree -/

theorem TokenOf.signal_eq {signal : Signal} (token : TokenOf signal) : token.1.signal = signal :=
  token.2

/-- A token without its length. -/
def TokenOf.emptied {signal : Signal} (token : TokenOf signal) : TokenOf signal :=
  ⟨token.1.emptied, token.signal_eq⟩

/-- A token with a fixed value and without a length. -/
def TokenOf.kept {signal : Signal} (token : TokenOf signal) : TokenOf signal :=
  ⟨token.1.emptied.fixed, token.signal_eq⟩

/-- A token that has lost its length if it is a constant encoding. -/
def TokenOf.reduced {signal : Signal} (token : TokenOf signal) : TokenOf signal :=
  ⟨emptiedConstant token.1, by rw [signal_emptiedConstant, token.signal_eq]⟩

/-- An encoding that has lost its length if it is constant. -/
def EncodingLeaf.reduced (leaf : EncodingLeaf) : EncodingLeaf :=
  ⟨emptiedConstant leaf.1, by rw [signal_emptiedConstant, span_emptiedConstant]; exact leaf.2⟩

/-- The first value of an enum that a reference names. -/
def EnumTree.referred? (tree : EnumTree) (reference : String) : Option (TokenOf .validValue) :=
  tree.values.find? fun value => refersTo reference value.1.name

/-- The enum reduced to one value. -/
def EnumTree.reducedTo (tree : EnumTree) (value : TokenOf .validValue) : EnumTree :=
  ⟨tree.opening.emptied, [value.kept], tree.closing.emptied⟩

mutual

/-- The type with its constant encodings reduced. -/
def TypeTree.reduced : TypeTree → TypeTree
  | .encoding leaf => .encoding leaf.reduced
  | .enumeration tree => .enumeration tree
  | .set tree => .set tree
  | .composite opening members closing =>
    .composite opening (TypeTree.reducedMembers members) closing

/-- The members of a composite with their constant encodings reduced. -/
def TypeTree.reducedMembers : List TypeTree → List TypeTree
  | [] => []
  | member :: members => member.reduced :: TypeTree.reducedMembers members

end

/-- The type of a field with its constants reduced.  Where a constant field refers to no value of
its enum the enum stays as it is. -/
def FieldTree.reducedType (opening : TokenOf .beginField) : TypeTree → TypeTree
  | .enumeration tree =>
    match tree.referred? (valueReference opening) with
    | some value =>
      if opening.1.isConstant then .enumeration (tree.reducedTo value) else .enumeration tree
    | none => .enumeration tree
  | type => type.reduced

/-- The type of a field that is not constant is reduced on its own. -/
theorem FieldTree.reducedType_of_not_constant {opening : TokenOf .beginField}
    (notConstant : opening.1.isConstant = false) :
    ∀ type : TypeTree, FieldTree.reducedType opening type = type.reduced
  | .encoding _ => rfl
  | .set _ => rfl
  | .composite _ _ _ => rfl
  | .enumeration tree => by
      rw [FieldTree.reducedType, notConstant, TypeTree.reduced]
      cases tree.referred? (valueReference opening) <;> rfl

/-- The field with its constants reduced. -/
def FieldTree.reduced (tree : FieldTree) : FieldTree :=
  { tree with type := FieldTree.reducedType tree.opening tree.type }

/-- Whether a field that is constant and wraps an enum refers to one of its values. -/
def FieldTree.Resolved (tree : FieldTree) : Prop :=
  ∀ enumTree, tree.type = .enumeration enumTree → tree.opening.1.isConstant = true →
    ∃ value, enumTree.referred? (valueReference tree.opening) = some value

/-- The composite of two encodings with its constants reduced. -/
def EncodingPair.reduced (tree : EncodingPair) : EncodingPair :=
  { tree with first := tree.first.reduced, second := tree.second.reduced }

/-- The variable data with its constants reduced. -/
def VarDataTree.reduced (tree : VarDataTree) : VarDataTree :=
  { tree with layout := tree.layout.reduced }

mutual

/-- The group with its constants reduced. -/
def GroupTree.reduced : GroupTree → GroupTree
  | .group opening dimensions body closing =>
    .group opening dimensions.reduced body.reduced closing

/-- Groups with their constants reduced. -/
def GroupTree.reducedList : List GroupTree → List GroupTree
  | [] => []
  | group :: groups => group.reduced :: GroupTree.reducedList groups

/-- The body with its constants reduced. -/
def BlockTree.reduced : BlockTree → BlockTree
  | .block fields groups varData =>
    .block (fields.map FieldTree.reduced) (GroupTree.reducedList groups)
      (varData.map VarDataTree.reduced)

end

/-- The message with its constants reduced. -/
def MessageTree.reduced (tree : MessageTree) : MessageTree :=
  { tree with body := tree.body.reduced }

mutual

theorem GroupTree.allFields_reduced : ∀ tree : GroupTree,
    tree.reduced.allFields = tree.allFields.map FieldTree.reduced
  | .group _ _ body _ => by
      rw [GroupTree.reduced, GroupTree.allFields, GroupTree.allFields, body.allFields_reduced]

theorem GroupTree.listAllFields_reduced : ∀ groups : List GroupTree,
    GroupTree.listAllFields (GroupTree.reducedList groups) =
      (GroupTree.listAllFields groups).map FieldTree.reduced
  | [] => by
      rw [GroupTree.reducedList, GroupTree.listAllFields, List.map_nil]
  | first :: others => by
      rw [GroupTree.reducedList, GroupTree.listAllFields, GroupTree.listAllFields, List.map_append,
        first.allFields_reduced, GroupTree.listAllFields_reduced others]

theorem BlockTree.allFields_reduced : ∀ tree : BlockTree,
    tree.reduced.allFields = tree.allFields.map FieldTree.reduced
  | .block fields groups _ => by
      rw [BlockTree.reduced, BlockTree.allFields, BlockTree.allFields, List.map_append,
        GroupTree.listAllFields_reduced groups]

end

/-! ### Reducing the flat form -/

/-- Some tokens are reduced to others wherever they stand, and the tokens behind them on their own.
That the reduction succeeds says something about them besides. -/
def ReducesTo (tokens reduced : List Token) (resolved : Prop) : Prop :=
  ∀ (index : Nat) (rest out : List Token), reduceConstants index (tokens ++ rest) = .ok out →
    resolved ∧ ∃ later, reduceConstants (index + tokens.length) rest = .ok later ∧
      out = reduced ++ later

theorem ReducesTo.append {first reducedFirst second reducedSecond : List Token}
    {resolvedFirst resolvedSecond : Prop} (one : ReducesTo first reducedFirst resolvedFirst)
    (other : ReducesTo second reducedSecond resolvedSecond) :
    ReducesTo (first ++ second) (reducedFirst ++ reducedSecond)
      (resolvedFirst ∧ resolvedSecond) := by
  intro index rest out accepted
  rw [List.append_assoc] at accepted
  obtain ⟨firstResolved, between, acceptedBetween, rfl⟩ := one index _ out accepted
  obtain ⟨secondResolved, later, acceptedLater, rfl⟩ := other _ rest between acceptedBetween
  refine ⟨⟨firstResolved, secondResolved⟩, later, ?_, by rw [List.append_assoc]⟩
  rw [List.length_append, ← Nat.add_assoc]
  exact acceptedLater

theorem ReducesTo.weaken {tokens reduced : List Token} {strong weak : Prop}
    (reduces : ReducesTo tokens reduced strong) (implies : strong → weak) :
    ReducesTo tokens reduced weak := by
  intro index rest out accepted
  obtain ⟨resolved, later⟩ := reduces index rest out accepted
  exact ⟨implies resolved, later⟩

/-- A token that opens no constant enum field is reduced on its own. -/
theorem reduceConstants_cons {token : Token} {rest : List Token}
    (plain : wrapsConstantEnum token rest = false) (index : Nat) :
    reduceConstants index (token :: rest) =
      (reduceConstants (index + 1) rest).map (emptiedConstant token :: ·) := by
  rw [reduceConstants.eq_def]
  simp only [plain, Bool.false_eq_true, if_false]
  cases reduceConstants (index + 1) rest <;> rfl

theorem wrapsConstantEnum_of_ne {token : Token} (other : token.signal ≠ .beginField)
    (rest : List Token) : wrapsConstantEnum token rest = false := by
  simp [wrapsConstantEnum, other]

/-- A token that opens no constant enum field, in front of tokens that are reduced. -/
theorem ReducesTo.behind {token : Token} {inner reducedInner : List Token} {resolved : Prop}
    (plain : ∀ rest, wrapsConstantEnum token (inner ++ rest) = false)
    (inside : ReducesTo inner reducedInner resolved) :
    ReducesTo (token :: inner) (emptiedConstant token :: reducedInner) resolved := by
  intro index rest out accepted
  rw [List.cons_append, reduceConstants_cons (plain rest)] at accepted
  cases reducedRest : reduceConstants (index + 1) (inner ++ rest) with
  | error problem =>
      rw [reducedRest] at accepted
      cases accepted
  | ok reduced =>
      rw [reducedRest] at accepted
      cases accepted
      obtain ⟨holds, later, acceptedLater, rfl⟩ := inside (index + 1) rest reduced reducedRest
      refine ⟨holds, later, ?_, rfl⟩
      rw [List.length_cons, Nat.add_comm inner.length, ← Nat.add_assoc]
      exact acceptedLater

/-- Among tokens none of which opens a field only the constant encodings are reduced. -/
theorem reducesTo_plain {tokens : List Token}
    (noField : ∀ token ∈ tokens, token.signal ≠ .beginField) :
    ReducesTo tokens (tokens.map emptiedConstant) True := by
  induction tokens with
  | nil =>
      intro index rest out accepted
      exact ⟨trivial, out, accepted, rfl⟩
  | cons token others ih =>
      have notField := noField token List.mem_cons_self
      have others := ih fun other member => noField other (List.mem_cons_of_mem token member)
      exact others.behind fun rest => wrapsConstantEnum_of_ne notField _

/-- Tokens of a signal that opens no field and is no encoding are left as they are. -/
theorem reducesTo_leaves {signal : Signal} (noField : signal ≠ .beginField)
    (noEncoding : signal ≠ .encoding) (tokens : List (TokenOf signal)) :
    ReducesTo (tokens.map (·.1)) (tokens.map (·.1)) True := by
  have plain : ReducesTo (tokens.map (·.1)) ((tokens.map (·.1)).map emptiedConstant) True := by
    apply reducesTo_plain
    intro token member
    obtain ⟨source, _, rfl⟩ := List.mem_map.mp member
    rwa [source.2]
  have unchanged : (tokens.map (·.1)).map emptiedConstant = tokens.map (·.1) := by
    rw [List.map_map]
    apply List.map_congr_left
    intro token _
    exact emptiedConstant_of_ne (by rwa [token.2])
  rwa [unchanged] at plain

/-- An opening token that opens no constant enum field and a closing one, around tokens that are
reduced. -/
theorem ReducesTo.enclosed {first last : Signal} {opening : TokenOf first} {closing : TokenOf last}
    {inner reducedInner : List Token} {resolved : Prop} (noEncoding : first ≠ .encoding)
    (closes : last ≠ .beginField ∧ last ≠ .encoding)
    (plain : ∀ rest, wrapsConstantEnum opening (inner ++ rest) = false)
    (inside : ReducesTo inner reducedInner resolved) :
    ReducesTo (enclose opening inner closing) (enclose opening reducedInner closing) resolved := by
  have back : ReducesTo [closing.1] [closing.1] True :=
    reducesTo_leaves closes.1 closes.2 [closing]
  have front : ∀ rest, wrapsConstantEnum opening.1 (inner ++ [closing.1] ++ rest) = false := by
    intro rest
    rw [List.append_assoc]
    exact plain _
  have whole := (inside.append back).behind front
  rw [emptiedConstant_of_ne (by rwa [opening.2])] at whole
  exact whole.weaken fun both => both.1

/-! ### Reducing the flat form of a tree -/

/-- The same around tokens of which no field opens. -/
theorem ReducesTo.enclosedType {first last : Signal} {opening : TokenOf first}
    {closing : TokenOf last} {inner reducedInner : List Token} {resolved : Prop}
    (opens : first ≠ .beginField ∧ first ≠ .encoding)
    (closes : last ≠ .beginField ∧ last ≠ .encoding)
    (inside : ReducesTo inner reducedInner resolved) :
    ReducesTo (enclose opening inner closing) (enclose opening reducedInner closing) resolved :=
  inside.enclosed opens.2 closes fun rest =>
    wrapsConstantEnum_of_ne (by rw [opening.2]; exact opens.1) _

theorem EnumTree.reducesTo (tree : EnumTree) : ReducesTo tree.tokens tree.tokens True :=
  .enclosedType (by decide) (by decide) (reducesTo_leaves (by decide) (by decide) tree.values)

theorem SetTree.reducesTo (tree : SetTree) : ReducesTo tree.tokens tree.tokens True :=
  .enclosedType (by decide) (by decide) (reducesTo_leaves (by decide) (by decide) tree.choices)

mutual

theorem TypeTree.reducesTo : ∀ tree : TypeTree, ReducesTo tree.tokens tree.reduced.tokens True
  | .encoding leaf => by
      rw [TypeTree.reduced, TypeTree.tokens, TypeTree.tokens]
      exact reducesTo_plain (by simp [leaf.2.1])
  | .enumeration tree => by
      rw [TypeTree.reduced, TypeTree.tokens]
      exact tree.reducesTo
  | .set tree => by
      rw [TypeTree.reduced, TypeTree.tokens]
      exact tree.reducesTo
  | .composite opening members closing => by
      rw [TypeTree.reduced, TypeTree.tokens, TypeTree.tokens]
      exact .enclosedType (by decide) (by decide) (TypeTree.memberTokens_reducesTo members)

theorem TypeTree.memberTokens_reducesTo : ∀ members : List TypeTree,
    ReducesTo (TypeTree.memberTokens members)
      (TypeTree.memberTokens (TypeTree.reducedMembers members)) True
  | [] => reducesTo_plain (by simp [TypeTree.memberTokens])
  | member :: members => by
      rw [TypeTree.reducedMembers, TypeTree.memberTokens, TypeTree.memberTokens]
      have all := member.reducesTo.append (TypeTree.memberTokens_reducesTo members)
      exact all.weaken fun _ => trivial

end

/-- The values of an enum end where its closing token stands. -/
theorem EnumTree.split_values (tree : EnumTree) (rest : List Token) :
    (tree.values.map (·.1) ++ tree.closing.1 :: rest).takeWhile (·.signal ≠ .endEnum) =
        tree.values.map (·.1) ∧
      (tree.values.map (·.1) ++ tree.closing.1 :: rest).dropWhile (·.signal ≠ .endEnum) =
        tree.closing.1 :: rest := by
  have values : ∀ token ∈ tree.values.map (·.1), decide (token.signal ≠ .endEnum) = true := by
    intro token member
    obtain ⟨source, _, rfl⟩ := List.mem_map.mp member
    rw [source.2]
    decide
  have closes : decide (tree.closing.1.signal ≠ .endEnum) = false := by
    rw [tree.closing.2]
    decide
  constructor
  · rw [List.takeWhile_append_of_pos values, List.takeWhile_cons_of_neg (by simp [closes]),
      List.append_nil]
  · rw [List.dropWhile_append_of_pos values, List.dropWhile_cons_of_neg (by simp [closes])]

/-- A constant field around an enum keeps the one value that it refers to. -/
theorem FieldTree.reducesTo_constantEnum {opening : TokenOf .beginField} {tree : EnumTree}
    {closing : TokenOf .endField} (isConstant : opening.1.isConstant = true) :
    ReducesTo (FieldTree.mk opening (.enumeration tree) closing).tokens
      (FieldTree.mk opening (.enumeration tree) closing).reduced.tokens
      (∃ value, tree.referred? (valueReference opening) = some value) := by
  intro index rest out accepted
  have wraps : wrapsConstantEnum opening.1
      (tree.opening.1 :: (tree.values.map (·.1) ++ tree.closing.1 :: closing.1 :: rest)) =
        true := by
    simp [wrapsConstantEnum, opening.2, isConstant, tree.opening.2]
  have shape : (FieldTree.mk opening (.enumeration tree) closing).tokens ++ rest =
      opening.1 :: tree.opening.1 ::
        (tree.values.map (·.1) ++ tree.closing.1 :: closing.1 :: rest) := by
    simp [FieldTree.tokens, TypeTree.tokens, EnumTree.tokens, enclose]
  rw [shape, reduceConstants.eq_def] at accepted
  simp only [wraps, if_true] at accepted
  split at accepted
  · next none_left =>
      rw [(tree.split_values _).2] at none_left
      cases none_left
  · next last after ending =>
      rw [(tree.split_values _).2] at ending
      obtain ⟨rfl, rfl⟩ := List.cons.inj ending
      have found : ((tree.values.map (·.1)).find? fun value =>
          refersTo (valueReference opening) value.name) =
            (tree.referred? (valueReference opening)).map (·.1) := by
        rw [List.find?_map]
        rfl
      rw [(tree.split_values _).1, found] at accepted
      cases named : tree.referred? (valueReference opening) with
      | none =>
          rw [named] at accepted
          cases accepted
      | some value =>
          refine ⟨⟨value, rfl⟩, ?_⟩
          have closingPlain : closing.1.signal ≠ .beginField ∧ closing.1.signal ≠ .encoding := by
            rw [closing.2]
            decide
          simp only [named, Option.map_some,
            reduceConstants_cons (wrapsConstantEnum_of_ne closingPlain.1 rest),
            emptiedConstant_of_ne closingPlain.2] at accepted
          have behind : index + (tree.values.map (·.1)).length + 3 + 1 =
              index + (FieldTree.mk opening (.enumeration tree) closing).tokens.length := by
            simp only [FieldTree.tokens, TypeTree.tokens, EnumTree.tokens, length_enclose]
            omega
          rw [behind] at accepted
          cases reducedRest : reduceConstants
              (index + (FieldTree.mk opening (.enumeration tree) closing).tokens.length) rest with
          | error problem =>
              rw [reducedRest] at accepted
              cases accepted
          | ok later =>
              rw [reducedRest] at accepted
              cases accepted
              refine ⟨later, rfl, ?_⟩
              simp [FieldTree.reduced, FieldTree.reducedType, named, isConstant, FieldTree.tokens,
                TypeTree.tokens, EnumTree.tokens, EnumTree.reducedTo, enclose, TokenOf.emptied,
                TokenOf.kept]

/-- A field that is not constant, or wraps no enum, has its type reduced and nothing else. -/
theorem FieldTree.reducesTo_plain {opening : TokenOf .beginField} {type : TypeTree}
    {closing : TokenOf .endField}
    (plain : ∀ rest, wrapsConstantEnum opening (type.tokens ++ rest) = false) :
    ReducesTo (FieldTree.mk opening type closing).tokens
      (enclose opening type.reduced.tokens closing) True := by
  apply type.reducesTo.enclosed (by decide) (by decide)
  intro rest
  exact plain rest

/-- The fields of a schema are reduced one by one. -/
theorem FieldTree.reducesTo : ∀ tree : FieldTree,
    ReducesTo tree.tokens tree.reduced.tokens tree.Resolved
  | ⟨opening, .encoding leaf, closing⟩ => by
      have whole : ReducesTo (FieldTree.mk opening (.encoding leaf) closing).tokens _ True :=
        FieldTree.reducesTo_plain fun rest => by
          simp [wrapsConstantEnum, TypeTree.tokens, leaf.2.1]
      refine whole.weaken fun _ enumTree isEnum => ?_
      cases isEnum
  | ⟨opening, .set tree, closing⟩ => by
      have whole : ReducesTo (FieldTree.mk opening (.set tree) closing).tokens _ True :=
        FieldTree.reducesTo_plain fun rest => by
          simp [wrapsConstantEnum, TypeTree.tokens, SetTree.tokens, enclose, tree.opening.2]
      refine whole.weaken fun _ enumTree isEnum => ?_
      cases isEnum
  | ⟨opening, .composite first members last, closing⟩ => by
      have whole : ReducesTo
          (FieldTree.mk opening (.composite first members last) closing).tokens _ True :=
        FieldTree.reducesTo_plain fun rest => by
          simp [wrapsConstantEnum, TypeTree.tokens, enclose, first.2]
      refine whole.weaken fun _ enumTree isEnum => ?_
      cases isEnum
  | ⟨opening, .enumeration tree, closing⟩ => by
      cases isConstant : opening.1.isConstant with
      | true =>
          refine (FieldTree.reducesTo_constantEnum isConstant).weaken ?_
          intro resolved enumTree isEnum _
          cases isEnum
          exact resolved
      | false =>
          have whole : ReducesTo (FieldTree.mk opening (.enumeration tree) closing).tokens _ True :=
            FieldTree.reducesTo_plain fun rest => by
              simp [wrapsConstantEnum, isConstant]
          rw [FieldTree.reduced, FieldTree.reducedType_of_not_constant isConstant]
          refine whole.weaken fun _ enumTree _ constant => ?_
          rw [isConstant] at constant
          cases constant

/-- Constructs that are reduced one after another. -/
theorem reducesTo_flatMap {α : Type} {tokens : α → List Token} {reduced : α → α}
    {resolved : α → Prop} (each : ∀ tree, ReducesTo (tokens tree) (tokens (reduced tree))
      (resolved tree)) (trees : List α) :
    ReducesTo (trees.flatMap tokens) ((trees.map reduced).flatMap tokens)
      (∀ tree ∈ trees, resolved tree) := by
  induction trees with
  | nil =>
      intro index rest out accepted
      exact ⟨by simp, out, accepted, rfl⟩
  | cons tree trees ih =>
      rw [List.map_cons, List.flatMap_cons, List.flatMap_cons]
      refine ((each tree).append ih).weaken fun both => ?_
      exact List.forall_mem_cons.mpr both

theorem EncodingPair.reducesTo (tree : EncodingPair) :
    ReducesTo tree.tokens tree.reduced.tokens True := by
  have inside : ReducesTo [tree.first.1, tree.second.1]
      ([tree.first.1, tree.second.1].map emptiedConstant) True :=
    WireSchema.reducesTo_plain (by simp [tree.first.2, tree.second.2])
  exact .enclosedType (by decide) (by decide) inside

theorem VarDataTree.reducesTo (tree : VarDataTree) :
    ReducesTo tree.tokens tree.reduced.tokens True :=
  .enclosedType (by decide) (by decide) tree.layout.reducesTo

mutual

theorem GroupTree.reducesTo : ∀ tree : GroupTree,
    ReducesTo tree.tokens tree.reduced.tokens (∀ field ∈ tree.allFields, field.Resolved)
  | .group opening dimensions body closing => by
      rw [GroupTree.reduced, GroupTree.tokens, GroupTree.tokens]
      refine .enclosedType (by decide) (by decide) ?_
      refine (dimensions.reducesTo.append body.reducesTo).weaken fun both => ?_
      rw [GroupTree.allFields]
      exact both.2

theorem GroupTree.listTokens_reducesTo : ∀ groups : List GroupTree,
    ReducesTo (GroupTree.listTokens groups) (GroupTree.listTokens (GroupTree.reducedList groups))
      (∀ field ∈ GroupTree.listAllFields groups, field.Resolved)
  | [] => by
      refine (WireSchema.reducesTo_plain (by simp [GroupTree.listTokens])).weaken fun _ => ?_
      simp [GroupTree.listAllFields]
  | group :: groups => by
      rw [GroupTree.reducedList, GroupTree.listTokens, GroupTree.listTokens]
      refine (group.reducesTo.append (GroupTree.listTokens_reducesTo groups)).weaken fun both => ?_
      rw [GroupTree.listAllFields]
      exact List.forall_mem_append.mpr both

theorem BlockTree.reducesTo : ∀ tree : BlockTree,
    ReducesTo tree.tokens tree.reduced.tokens (∀ field ∈ tree.allFields, field.Resolved)
  | .block fields groups varData => by
      rw [BlockTree.reduced, BlockTree.tokens, BlockTree.tokens]
      have behind := (GroupTree.listTokens_reducesTo groups).append
        (reducesTo_flatMap VarDataTree.reducesTo varData)
      refine ((reducesTo_flatMap FieldTree.reducesTo fields).append behind).weaken fun all => ?_
      rw [BlockTree.allFields]
      exact List.forall_mem_append.mpr ⟨all.1, all.2.1⟩

end

/-- The reduction of the flat form of a message gives the flat form of the reduced message, and
succeeds only if every constant enum refers to one of its values. -/
theorem MessageTree.reduceConstants_tokens {tree : MessageTree} {out : List Token}
    (accepted : reduceConstants 0 tree.tokens = .ok out) :
    (∀ field ∈ tree.body.allFields, field.Resolved) ∧ out = tree.reduced.tokens := by
  have whole : ReducesTo tree.tokens tree.reduced.tokens
      (∀ field ∈ tree.body.allFields, field.Resolved) :=
    .enclosedType (by decide) (by decide) tree.body.reducesTo
  have alone : reduceConstants 0 (tree.tokens ++ []) = .ok out := by
    rw [List.append_nil, accepted]
  obtain ⟨resolved, later, done, rfl⟩ := whole 0 [] out alone
  rw [reduceConstants.eq_def] at done
  cases done
  exact ⟨resolved, List.append_nil _⟩

end WireSchema
