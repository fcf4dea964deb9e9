/-
Module: WireSchema.Proofs.MeasuredTree
Purpose: `measured` writes onto the ends of every construct of a tree how many tokens it has.  Its
  flat form is what the measuring of spans makes of the flat form of the tree
  (`MessageTree.withSpans_tokens`).
Main exports: MessageTree.measured, MessageTree.withSpans_tokens, BlockTree.measured_spanned
-/
import WireSchema.Proofs.Measuring

namespace WireSchema

/-!
A span is a number of 32 bits.  As long as the tokens of a tree are fewer than that, the spans of
the measured tree can be trusted (`BlockTree.measured_spanned`).
-/

/-- The number of tokens that is too great for a span. -/
def spanLimit : Nat := 2147483648

/-- A token with another span. -/
def TokenOf.spanning {signal : Signal} (token : TokenOf signal) (span : Int32) : TokenOf signal :=
  ⟨token.1.withSpan span, token.2⟩

@[simp] theorem TokenOf.coe_spanning {signal : Signal} (token : TokenOf signal) (span : Int32) :
    (token.spanning span).1 = token.1.withSpan span := rfl

theorem span_withSpan {count : Nat} (positive : 0 < count) (small : count < spanLimit)
    (token : Token) : (token.withSpan (Int32.ofNat count)).span = count := by
  have exactly : (Int32.ofNat count).toNatClampNeg = count := by
    rw [Int32.toNatClampNeg, Int32.toInt_ofNat_of_lt small]
    exact Int.toNat_natCast count
  rw [Token.span, Token.withSpan]
  change max (Int32.ofNat count).toNatClampNeg 1 = count
  rw [exactly]
  omega

theorem span_enclosedSpan {inner : List Token} (small : inner.length + 2 < spanLimit)
    (token : Token) : (token.withSpan (enclosedSpan inner)).span = inner.length + 2 :=
  span_withSpan (by omega) small token

/-! ### Writing the spans -/

/-- The enum with its spans. -/
def EnumTree.measured (tree : EnumTree) : EnumTree :=
  let span := enclosedSpan (tree.values.map (·.1))
  { tree with opening := tree.opening.spanning span, closing := tree.closing.spanning span }

/-- The set with its spans. -/
def SetTree.measured (tree : SetTree) : SetTree :=
  let span := enclosedSpan (tree.choices.map (·.1))
  { tree with opening := tree.opening.spanning span, closing := tree.closing.spanning span }

mutual

/-- The type with its spans. -/
def TypeTree.measured : TypeTree → TypeTree
  | .encoding leaf => .encoding leaf
  | .enumeration tree => .enumeration tree.measured
  | .set tree => .set tree.measured
  | .composite opening members closing =>
    let span := enclosedSpan (TypeTree.memberTokens members)
    .composite (opening.spanning span) (TypeTree.measuredMembers members) (closing.spanning span)

/-- The members of a composite with their spans. -/
def TypeTree.measuredMembers : List TypeTree → List TypeTree
  | [] => []
  | member :: members => member.measured :: TypeTree.measuredMembers members

end

/-- The field with its spans. -/
def FieldTree.measured (tree : FieldTree) : FieldTree :=
  let span := enclosedSpan tree.type.tokens
  ⟨tree.opening.spanning span, tree.type.measured, tree.closing.spanning span⟩

/-- The composite of two encodings with its spans. -/
def EncodingPair.measured (tree : EncodingPair) : EncodingPair :=
  let span := enclosedSpan [tree.first, tree.second]
  { tree with opening := tree.opening.spanning span, closing := tree.closing.spanning span }

/-- The variable data with its spans. -/
def VarDataTree.measured (tree : VarDataTree) : VarDataTree :=
  let span := enclosedSpan tree.layout.tokens
  ⟨tree.opening.spanning span, tree.layout.measured, tree.closing.spanning span⟩

mutual

/-- The group with its spans. -/
def GroupTree.measured : GroupTree → GroupTree
  | .group opening dimensions body closing =>
    let span := enclosedSpan (dimensions.tokens ++ body.tokens)
    .group (opening.spanning span) dimensions.measured body.measured (closing.spanning span)

/-- Groups with their spans. -/
def GroupTree.measuredList : List GroupTree → List GroupTree
  | [] => []
  | group :: groups => group.measured :: GroupTree.measuredList groups

/-- The body with its spans. -/
def BlockTree.measured : BlockTree → BlockTree
  | .block fields groups varData =>
    .block (fields.map FieldTree.measured) (GroupTree.measuredList groups)
      (varData.map VarDataTree.measured)

end

/-- The message with its spans. -/
def MessageTree.measured (tree : MessageTree) : MessageTree :=
  let span := enclosedSpan tree.body.tokens
  ⟨tree.opening.spanning span, tree.body.measured, tree.closing.spanning span⟩

mutual

theorem GroupTree.allFields_measured : ∀ tree : GroupTree,
    tree.measured.allFields = tree.allFields.map FieldTree.measured
  | .group _ _ body _ => by
      rw [GroupTree.measured, GroupTree.allFields, GroupTree.allFields, body.allFields_measured]

theorem GroupTree.listAllFields_measured : ∀ groups : List GroupTree,
    GroupTree.listAllFields (GroupTree.measuredList groups) =
      (GroupTree.listAllFields groups).map FieldTree.measured
  | [] => by
      rw [GroupTree.measuredList, GroupTree.listAllFields, List.map_nil]
  | first :: others => by
      rw [GroupTree.measuredList, GroupTree.listAllFields, GroupTree.listAllFields, List.map_append,
        first.allFields_measured, GroupTree.listAllFields_measured others]

theorem BlockTree.allFields_measured : ∀ tree : BlockTree,
    tree.measured.allFields = tree.allFields.map FieldTree.measured
  | .block fields groups _ => by
      rw [BlockTree.measured, BlockTree.allFields, BlockTree.allFields, List.map_append,
        GroupTree.listAllFields_measured groups]

end

/-! ### The flat form of a measured tree -/

/-- Tokens of a signal that neither opens nor closes anything are leaves. -/
theorem measuresTo_leaves {signal : Signal} (opensNothing : signal.opens? = none)
    (closesNothing : signal.closes? = none) (tokens : List (TokenOf signal)) :
    MeasuresTo (tokens.map (·.1)) (tokens.map (·.1)) := by
  apply MeasuresTo.leaves
  intro token member
  obtain ⟨source, _, rfl⟩ := List.mem_map.mp member
  rw [source.2]
  exact ⟨opensNothing, closesNothing⟩

/-- A construct whose ends have the signals of one component. -/
theorem measuresTo_enclose {component : Component} {first last : Signal}
    (opens : first.opens? = some component) (closes : last.closes? = some component)
    (opening : TokenOf first) (closing : TokenOf last) {inner measuredInner : List Token}
    (inside : MeasuresTo inner measuredInner) :
    MeasuresTo (enclose opening inner closing)
      (enclose (opening.spanning (enclosedSpan inner)) measuredInner
        (closing.spanning (enclosedSpan inner))) := by
  have openingOpens : opening.1.signal.opens? = some component := by rw [opening.2, opens]
  have closingCloses : closing.1.signal.closes? = some component := by rw [closing.2, closes]
  exact .enclosed openingOpens closingCloses inside

theorem EnumTree.measuresTo (tree : EnumTree) : MeasuresTo tree.tokens tree.measured.tokens :=
  measuresTo_enclose rfl rfl tree.opening tree.closing (measuresTo_leaves rfl rfl tree.values)

theorem SetTree.measuresTo (tree : SetTree) : MeasuresTo tree.tokens tree.measured.tokens :=
  measuresTo_enclose rfl rfl tree.opening tree.closing (measuresTo_leaves rfl rfl tree.choices)

mutual

theorem TypeTree.measuresTo : ∀ tree : TypeTree, MeasuresTo tree.tokens tree.measured.tokens
  | .encoding leaf => by
      rw [TypeTree.measured, TypeTree.tokens]
      exact .leaf (by rw [leaf.2.1]; rfl) (by rw [leaf.2.1]; rfl) .nil
  | .enumeration tree => by
      rw [TypeTree.measured, TypeTree.tokens, TypeTree.tokens]
      exact tree.measuresTo
  | .set tree => by
      rw [TypeTree.measured, TypeTree.tokens, TypeTree.tokens]
      exact tree.measuresTo
  | .composite opening members closing => by
      rw [TypeTree.measured, TypeTree.tokens, TypeTree.tokens]
      exact measuresTo_enclose rfl rfl opening closing (TypeTree.memberTokens_measuresTo members)

theorem TypeTree.memberTokens_measuresTo : ∀ members : List TypeTree,
    MeasuresTo (TypeTree.memberTokens members)
      (TypeTree.memberTokens (TypeTree.measuredMembers members))
  | [] => .nil
  | member :: members => by
      rw [TypeTree.measuredMembers, TypeTree.memberTokens, TypeTree.memberTokens]
      exact member.measuresTo.append (TypeTree.memberTokens_measuresTo members)

end

theorem FieldTree.measuresTo (tree : FieldTree) : MeasuresTo tree.tokens tree.measured.tokens :=
  measuresTo_enclose rfl rfl tree.opening tree.closing tree.type.measuresTo

theorem EncodingPair.measuresTo (tree : EncodingPair) :
    MeasuresTo tree.tokens tree.measured.tokens :=
  measuresTo_enclose rfl rfl tree.opening tree.closing
    (measuresTo_leaves rfl rfl [tree.first, tree.second])

theorem VarDataTree.measuresTo (tree : VarDataTree) :
    MeasuresTo tree.tokens tree.measured.tokens :=
  measuresTo_enclose rfl rfl tree.opening tree.closing tree.layout.measuresTo

/-- Constructs one after another. -/
theorem measuresTo_flatMap {α : Type} {tokens : α → List Token} {measured : α → α}
    (each : ∀ tree, MeasuresTo (tokens tree) (tokens (measured tree))) (trees : List α) :
    MeasuresTo (trees.flatMap tokens) ((trees.map measured).flatMap tokens) := by
  induction trees with
  | nil => exact .nil
  | cons tree trees ih =>
      rw [List.map_cons, List.flatMap_cons, List.flatMap_cons]
      exact (each tree).append ih

mutual

theorem GroupTree.measuresTo : ∀ tree : GroupTree, MeasuresTo tree.tokens tree.measured.tokens
  | .group opening dimensions body closing => by
      rw [GroupTree.measured, GroupTree.tokens, GroupTree.tokens]
      exact measuresTo_enclose rfl rfl opening closing
        (dimensions.measuresTo.append body.measuresTo)

theorem GroupTree.listTokens_measuresTo : ∀ groups : List GroupTree,
    MeasuresTo (GroupTree.listTokens groups)
      (GroupTree.listTokens (GroupTree.measuredList groups))
  | [] => .nil
  | group :: groups => by
      rw [GroupTree.measuredList, GroupTree.listTokens, GroupTree.listTokens]
      exact group.measuresTo.append (GroupTree.listTokens_measuresTo groups)

theorem BlockTree.measuresTo : ∀ tree : BlockTree, MeasuresTo tree.tokens tree.measured.tokens
  | .block fields groups varData => by
      rw [BlockTree.measured, BlockTree.tokens, BlockTree.tokens]
      exact (measuresTo_flatMap FieldTree.measuresTo fields).append
        ((GroupTree.listTokens_measuresTo groups).append
          (measuresTo_flatMap VarDataTree.measuresTo varData))

end

theorem MessageTree.measuresTo (tree : MessageTree) :
    MeasuresTo tree.tokens tree.measured.tokens :=
  measuresTo_enclose rfl rfl tree.opening tree.closing tree.body.measuresTo

/-- Measuring the flat form of a tree gives the flat form of the measured tree. -/
theorem MessageTree.withSpans_tokens (tree : MessageTree) :
    withSpans tree.tokens = .ok tree.measured.tokens :=
  withSpans_of_measuresTo tree.measuresTo

/-! ### Measuring again -/

theorem TokenOf.spanning_spanning {signal : Signal} (token : TokenOf signal)
    (first second : Int32) : (token.spanning first).spanning second = token.spanning second :=
  rfl

theorem enclosedSpan_eq {first second : List Token} (same : first.length = second.length) :
    enclosedSpan first = enclosedSpan second := by
  rw [enclosedSpan, enclosedSpan, same]

mutual

/-- The spans of a type that has been measured are those that measuring finds. -/
theorem TypeTree.measured_measured : ∀ tree : TypeTree, tree.measured.measured = tree.measured
  | .encoding leaf => by
      rw [TypeTree.measured, TypeTree.measured]
  | .enumeration tree => by
      rw [TypeTree.measured, TypeTree.measured]
      rfl
  | .set tree => by
      rw [TypeTree.measured, TypeTree.measured]
      rfl
  | .composite opening members closing => by
      have span := enclosedSpan_eq (TypeTree.memberTokens_measuresTo members).length_eq
      rw [TypeTree.measured, TypeTree.measured, span, TypeTree.measuredMembers_measured members]
      rfl

theorem TypeTree.measuredMembers_measured : ∀ members : List TypeTree,
    TypeTree.measuredMembers (TypeTree.measuredMembers members) =
      TypeTree.measuredMembers members
  | [] => by
      rw [TypeTree.measuredMembers, TypeTree.measuredMembers]
  | member :: members => by
      rw [TypeTree.measuredMembers, TypeTree.measuredMembers, member.measured_measured,
        TypeTree.measuredMembers_measured members]

end

theorem FieldTree.measured_measured (tree : FieldTree) :
    tree.measured.measured = tree.measured := by
  have span := enclosedSpan_eq tree.type.measuresTo.length_eq
  rw [FieldTree.measured, FieldTree.measured]
  simp only [span, tree.type.measured_measured, TokenOf.spanning_spanning]

theorem EncodingPair.measured_measured (tree : EncodingPair) :
    tree.measured.measured = tree.measured :=
  rfl

theorem VarDataTree.measured_measured (tree : VarDataTree) :
    tree.measured.measured = tree.measured := by
  have span := enclosedSpan_eq tree.layout.measuresTo.length_eq
  rw [VarDataTree.measured, VarDataTree.measured]
  simp only [span, tree.layout.measured_measured, TokenOf.spanning_spanning]

/-! ### Trees that were measured before -/

/-- A construct that measuring leaves alone carries its span already. -/
theorem spanning_of_tokens {first last : Signal} {opening : TokenOf first} {closing : TokenOf last}
    {span : Int32} {inner measuredInner : List Token}
    (same : enclose (opening.spanning span) measuredInner (closing.spanning span) =
      enclose opening inner closing) :
    opening.spanning span = opening ∧ measuredInner = inner ∧ closing.spanning span = closing := by
  obtain ⟨sameOpening, behind⟩ := List.cons.inj same
  obtain ⟨sameInner, sameClosing⟩ := List.append_inj' behind rfl
  exact ⟨Subtype.ext sameOpening, sameInner, Subtype.ext (List.cons.inj sameClosing).1⟩

theorem EnumTree.measured_of_tokens : ∀ {tree : EnumTree}, tree.measured.tokens = tree.tokens →
    tree.measured = tree
  | ⟨opening, values, closing⟩, same => by
      obtain ⟨opens, _, closes⟩ := spanning_of_tokens same
      simp only [EnumTree.measured, opens, closes]

theorem SetTree.measured_of_tokens : ∀ {tree : SetTree}, tree.measured.tokens = tree.tokens →
    tree.measured = tree
  | ⟨opening, choices, closing⟩, same => by
      obtain ⟨opens, _, closes⟩ := spanning_of_tokens same
      simp only [SetTree.measured, opens, closes]

mutual

/-- A type whose flat form measuring leaves alone is left alone as well. -/
theorem TypeTree.measured_of_tokens : ∀ {tree : TypeTree}, tree.measured.tokens = tree.tokens →
    tree.measured = tree
  | .encoding leaf, _ => by
      rw [TypeTree.measured]
  | .enumeration tree, same => by
      rw [TypeTree.measured, TypeTree.tokens, TypeTree.tokens] at same
      rw [TypeTree.measured, EnumTree.measured_of_tokens same]
  | .set tree, same => by
      rw [TypeTree.measured, TypeTree.tokens, TypeTree.tokens] at same
      rw [TypeTree.measured, SetTree.measured_of_tokens same]
  | .composite opening members closing, same => by
      rw [TypeTree.measured, TypeTree.tokens, TypeTree.tokens] at same
      obtain ⟨opens, inner, closes⟩ := spanning_of_tokens same
      rw [TypeTree.measured, opens, closes, TypeTree.measuredMembers_of_tokens inner]

theorem TypeTree.measuredMembers_of_tokens : ∀ {members : List TypeTree},
    TypeTree.memberTokens (TypeTree.measuredMembers members) = TypeTree.memberTokens members →
      TypeTree.measuredMembers members = members
  | [], _ => by
      rw [TypeTree.measuredMembers]
  | member :: members, same => by
      rw [TypeTree.measuredMembers, TypeTree.memberTokens, TypeTree.memberTokens] at same
      obtain ⟨first, others⟩ := List.append_inj same member.measuresTo.length_eq
      rw [TypeTree.measuredMembers, TypeTree.measured_of_tokens first,
        TypeTree.measuredMembers_of_tokens others]

end

theorem FieldTree.measured_of_tokens : ∀ {tree : FieldTree}, tree.measured.tokens = tree.tokens →
    tree.measured = tree
  | ⟨opening, type, closing⟩, same => by
      obtain ⟨opens, inner, closes⟩ := spanning_of_tokens same
      simp only [FieldTree.measured, opens, closes, TypeTree.measured_of_tokens inner]

theorem EncodingPair.measured_of_tokens : ∀ {tree : EncodingPair},
    tree.measured.tokens = tree.tokens → tree.measured = tree
  | ⟨opening, first, second, closing⟩, same => by
      obtain ⟨opens, _, closes⟩ := spanning_of_tokens same
      simp only [EncodingPair.measured, opens, closes]

theorem VarDataTree.measured_of_tokens : ∀ {tree : VarDataTree},
    tree.measured.tokens = tree.tokens → tree.measured = tree
  | ⟨opening, layout, closing⟩, same => by
      obtain ⟨opens, inner, closes⟩ := spanning_of_tokens same
      simp only [VarDataTree.measured, opens, closes, EncodingPair.measured_of_tokens inner]

theorem map_measured_of_tokens {α : Type} {tokens : α → List Token} {measured : α → α}
    (each : ∀ {tree}, tokens (measured tree) = tokens tree → measured tree = tree)
    (sameLength : ∀ tree, (tokens (measured tree)).length = (tokens tree).length) :
    ∀ {trees : List α}, (trees.map measured).flatMap tokens = trees.flatMap tokens →
      trees.map measured = trees
  | [], _ => rfl
  | tree :: trees, same => by
      rw [List.map_cons, List.flatMap_cons, List.flatMap_cons] at same
      obtain ⟨first, others⟩ := List.append_inj same (sameLength tree)
      rw [List.map_cons, each first, map_measured_of_tokens each sameLength others]

mutual

theorem GroupTree.measured_of_tokens : ∀ {tree : GroupTree},
    tree.measured.tokens = tree.tokens → tree.measured = tree
  | .group opening dimensions body closing, same => by
      rw [GroupTree.measured, GroupTree.tokens, GroupTree.tokens] at same
      obtain ⟨opens, inner, closes⟩ := spanning_of_tokens same
      obtain ⟨sameDimensions, sameBody⟩ := List.append_inj inner dimensions.measuresTo.length_eq
      rw [GroupTree.measured, opens, closes,
        EncodingPair.measured_of_tokens sameDimensions, BlockTree.measured_of_tokens sameBody]

theorem GroupTree.measuredList_of_tokens : ∀ {groups : List GroupTree},
    GroupTree.listTokens (GroupTree.measuredList groups) = GroupTree.listTokens groups →
      GroupTree.measuredList groups = groups
  | [], _ => by
      rw [GroupTree.measuredList]
  | first :: others, same => by
      rw [GroupTree.measuredList, GroupTree.listTokens, GroupTree.listTokens] at same
      obtain ⟨sameFirst, sameOthers⟩ := List.append_inj same first.measuresTo.length_eq
      rw [GroupTree.measuredList, GroupTree.measured_of_tokens sameFirst,
        GroupTree.measuredList_of_tokens sameOthers]

theorem BlockTree.measured_of_tokens : ∀ {tree : BlockTree},
    tree.measured.tokens = tree.tokens → tree.measured = tree
  | .block fields groups varData, same => by
      rw [BlockTree.measured, BlockTree.tokens, BlockTree.tokens] at same
      have fieldsLength := (measuresTo_flatMap FieldTree.measuresTo fields).length_eq
      obtain ⟨sameFields, behind⟩ := List.append_inj same fieldsLength
      obtain ⟨sameGroups, sameVarData⟩ := List.append_inj behind
        (GroupTree.listTokens_measuresTo groups).length_eq
      rw [BlockTree.measured, GroupTree.measuredList_of_tokens sameGroups,
        map_measured_of_tokens FieldTree.measured_of_tokens
          (fun field => field.measuresTo.length_eq) sameFields,
        map_measured_of_tokens VarDataTree.measured_of_tokens
          (fun data => data.measuresTo.length_eq) sameVarData]

end

/-- A message whose flat form measuring leaves alone has its spans already. -/
theorem MessageTree.measured_of_tokens : ∀ {tree : MessageTree},
    tree.measured.tokens = tree.tokens → tree.measured = tree
  | ⟨opening, body, closing⟩, same => by
      obtain ⟨opens, inner, closes⟩ := spanning_of_tokens same
      simp only [MessageTree.measured, opens, closes, BlockTree.measured_of_tokens inner]

/-! ### Spans that can be trusted -/

/-- The opening token of the enum says how many tokens there are. -/
def EnumTree.Spanned (tree : EnumTree) : Prop :=
  tree.opening.1.span = tree.tokens.length

/-- The opening token of the set says how many tokens there are. -/
def SetTree.Spanned (tree : SetTree) : Prop :=
  tree.opening.1.span = tree.tokens.length

mutual

/-- The opening tokens in a type say how many tokens there are to each. -/
def TypeTree.Spanned : TypeTree → Prop
  | .encoding _ => True
  | .enumeration tree => tree.Spanned
  | .set tree => tree.Spanned
  | .composite opening members _ =>
    opening.1.span = (TypeTree.memberTokens members).length + 2 ∧ TypeTree.MembersSpanned members

/-- The same for the members of a composite. -/
def TypeTree.MembersSpanned : List TypeTree → Prop
  | [] => True
  | member :: members => member.Spanned ∧ TypeTree.MembersSpanned members

end

/-- The same for a field. -/
structure FieldTree.Spanned (tree : FieldTree) : Prop where
  opening : tree.opening.1.span = tree.tokens.length
  type : tree.type.Spanned

/-- The same for a composite of two encodings. -/
def EncodingPair.Spanned (tree : EncodingPair) : Prop :=
  tree.opening.1.span = tree.tokens.length

/-- The same for variable data. -/
structure VarDataTree.Spanned (tree : VarDataTree) : Prop where
  opening : tree.opening.1.span = tree.tokens.length
  layout : tree.layout.Spanned

mutual

/-- The same for a group. -/
def GroupTree.Spanned : GroupTree → Prop
  | .group opening dimensions body _ =>
    opening.1.span = (dimensions.tokens ++ body.tokens).length + 2 ∧
      dimensions.Spanned ∧ body.Spanned

/-- The same for groups one after another. -/
def GroupTree.ListSpanned : List GroupTree → Prop
  | [] => True
  | group :: groups => group.Spanned ∧ GroupTree.ListSpanned groups

/-- The same for a body. -/
def BlockTree.Spanned : BlockTree → Prop
  | .block fields groups varData =>
    (∀ field ∈ fields, field.Spanned) ∧ GroupTree.ListSpanned groups ∧
      ∀ data ∈ varData, data.Spanned

end

theorem EnumTree.measured_spanned {tree : EnumTree} (small : tree.tokens.length < spanLimit) :
    tree.measured.Spanned := by
  rw [EnumTree.tokens, length_enclose] at small
  rw [EnumTree.Spanned, EnumTree.tokens, length_enclose]
  exact span_enclosedSpan small tree.opening

theorem SetTree.measured_spanned {tree : SetTree} (small : tree.tokens.length < spanLimit) :
    tree.measured.Spanned := by
  rw [SetTree.tokens, length_enclose] at small
  rw [SetTree.Spanned, SetTree.tokens, length_enclose]
  exact span_enclosedSpan small tree.opening

mutual

theorem TypeTree.measured_spanned : ∀ tree : TypeTree, tree.tokens.length < spanLimit →
    tree.measured.Spanned
  | .encoding leaf, _ => by
      rw [TypeTree.measured, TypeTree.Spanned]
      trivial
  | .enumeration tree, small => by
      rw [TypeTree.measured, TypeTree.Spanned]
      exact EnumTree.measured_spanned (by rwa [TypeTree.tokens] at small)
  | .set tree, small => by
      rw [TypeTree.measured, TypeTree.Spanned]
      exact SetTree.measured_spanned (by rwa [TypeTree.tokens] at small)
  | .composite opening members closing, small => by
      rw [TypeTree.tokens, length_enclose] at small
      rw [TypeTree.measured, TypeTree.Spanned,
        (TypeTree.memberTokens_measuresTo members).length_eq]
      exact ⟨span_enclosedSpan small opening,
        TypeTree.measuredMembers_spanned members (by omega)⟩

theorem TypeTree.measuredMembers_spanned : ∀ members : List TypeTree,
    (TypeTree.memberTokens members).length < spanLimit →
      TypeTree.MembersSpanned (TypeTree.measuredMembers members)
  | [], _ => by
      rw [TypeTree.measuredMembers, TypeTree.MembersSpanned]
      trivial
  | member :: members, small => by
      rw [TypeTree.memberTokens, List.length_append] at small
      rw [TypeTree.measuredMembers, TypeTree.MembersSpanned]
      exact ⟨member.measured_spanned (by omega),
        TypeTree.measuredMembers_spanned members (by omega)⟩

end

theorem FieldTree.measured_spanned {tree : FieldTree} (small : tree.tokens.length < spanLimit) :
    tree.measured.Spanned := by
  rw [FieldTree.tokens, length_enclose] at small
  constructor
  · rw [FieldTree.tokens, length_enclose, FieldTree.measured, tree.type.measuresTo.length_eq]
    exact span_enclosedSpan small tree.opening
  · exact tree.type.measured_spanned (by omega)

theorem EncodingPair.measured_spanned (tree : EncodingPair) : tree.measured.Spanned := by
  rw [EncodingPair.Spanned, EncodingPair.tokens, length_enclose]
  exact span_enclosedSpan (by simp [spanLimit]) tree.opening

theorem VarDataTree.measured_spanned (tree : VarDataTree) : tree.measured.Spanned := by
  constructor
  · rw [VarDataTree.tokens, length_enclose, VarDataTree.measured,
      tree.layout.measuresTo.length_eq]
    exact span_enclosedSpan (by simp [EncodingPair.tokens, spanLimit]) tree.opening
  · exact tree.layout.measured_spanned

mutual

theorem GroupTree.measured_spanned : ∀ tree : GroupTree, tree.tokens.length < spanLimit →
    tree.measured.Spanned
  | .group opening dimensions body closing, small => by
      rw [GroupTree.tokens, length_enclose] at small
      rw [GroupTree.measured, GroupTree.Spanned,
        (dimensions.measuresTo.append body.measuresTo).length_eq]
      refine ⟨span_enclosedSpan small opening, dimensions.measured_spanned,
        body.measured_spanned ?_⟩
      rw [List.length_append] at small
      omega

theorem GroupTree.measuredList_spanned : ∀ groups : List GroupTree,
    (GroupTree.listTokens groups).length < spanLimit →
      GroupTree.ListSpanned (GroupTree.measuredList groups)
  | [], _ => by
      rw [GroupTree.measuredList, GroupTree.ListSpanned]
      trivial
  | group :: groups, small => by
      rw [GroupTree.listTokens, List.length_append] at small
      rw [GroupTree.measuredList, GroupTree.ListSpanned]
      exact ⟨group.measured_spanned (by omega), GroupTree.measuredList_spanned groups (by omega)⟩

/-- The spans of a measured body are right if its tokens can be counted. -/
theorem BlockTree.measured_spanned : ∀ tree : BlockTree, tree.tokens.length < spanLimit →
    tree.measured.Spanned
  | .block fields groups varData, small => by
      rw [BlockTree.tokens, List.length_append, List.length_append] at small
      rw [BlockTree.measured, BlockTree.Spanned]
      refine ⟨?_, GroupTree.measuredList_spanned groups (by omega), ?_⟩
      · intro field member
        obtain ⟨source, sourceMember, rfl⟩ := List.mem_map.mp member
        have part := (List.sublist_flatten_of_mem
          (List.mem_map_of_mem (f := FieldTree.tokens) sourceMember)).length_le
        rw [← List.flatMap_def] at part
        exact FieldTree.measured_spanned (by omega)
      · intro data member
        obtain ⟨source, _, rfl⟩ := List.mem_map.mp member
        exact source.measured_spanned

end

end WireSchema
