/-
Module: WireSchema.Proofs.TreeDecoding
Purpose: Reading along the tokens of a tree is reading along the tree (`decode_tokens`), provided
  that the spans of its opening tokens are right.  Every loop of the flat reader is considered with
  arbitrary tokens behind those of the tree: a span brings it exactly behind the construct that it
  has read or passed over, and a limit or a token of another kind ends it there.
Main exports: Headed, Ends, decode_tokens
-/
import WireSchema.Proofs.MeasuredTree
import WireSchema.Proofs.TreeWalk

namespace WireSchema

/-! ### Constructs in the flat form -/

/-- The tokens begin with one of a signal, whose span counts them all. -/
def Headed (signal : Signal) (tokens : List Token) : Prop :=
  ∃ first others, tokens = first :: others ∧ first.signal = signal ∧
    first.span = others.length + 1

/-- A loop over the constructs of a signal ends where nothing is left inside the limit, or another
signal stands in front. -/
def Ends (signal : Signal) (limit : Nat) (tokens : List Token) : Prop :=
  limit = 0 ∨ ∃ first others, tokens = first :: others ∧ first.signal ≠ signal

/-- A construct whose opening token counts its tokens. -/
theorem headed_enclose {signal last : Signal} {opening : TokenOf signal} {closing : TokenOf last}
    {inner : List Token} (span : opening.1.span = inner.length + 2) :
    Headed signal (enclose opening inner closing) :=
  ⟨opening, inner ++ [closing.1], rfl, opening.2, by simpa using span⟩

/-- Tokens that follow a construct. -/
theorem enclose_append (opening : Token) (inner : List Token) (closing : Token)
    (rest : List Token) :
    enclose opening inner closing ++ rest = opening :: (inner ++ closing :: rest) := by
  rw [enclose, List.cons_append, List.append_assoc, List.singleton_append]

theorem construct_enclose {opening closing : Token} {inner : List Token}
    (span : opening.span = inner.length + 2) (rest : List Token) :
    construct opening (inner ++ closing :: rest) = .ok (enclose opening inner closing) := by
  have whole : (opening :: (inner ++ closing :: rest)).take opening.span =
      enclose opening inner closing := by
    rw [span, ← enclose_append]
    exact List.take_left' (length_enclose opening inner closing)
  rw [construct, whole, length_enclose, span, if_pos ⟨rfl, by omega⟩]

/-- What is left behind a construct, and of the limit. -/
theorem skip_construct {first : Token} {others : List Token}
    (span : first.span = others.length + 1) (rest : List Token) (later : Nat) :
    (first :: (others ++ rest)).drop first.span = rest ∧
      others.length + later + 1 - first.span = later := by
  refine ⟨?_, by omega⟩
  rw [span, List.drop_succ_cons]
  exact List.drop_left

theorem skip_enclose {opening : Token} {inner : List Token}
    (span : opening.span = inner.length + 2) (closing : Token) (rest : List Token) (later : Nat) :
    (opening :: (inner ++ closing :: rest)).drop opening.span = rest ∧
      inner.length + 1 + later + 1 - opening.span = later := by
  refine ⟨?_, by omega⟩
  rw [span, ← enclose_append]
  exact List.drop_left' (length_enclose opening inner closing)

theorem passSection_ends {signal : Signal} {limit : Nat} {tokens : List Token}
    (ends : Ends signal limit tokens) : passSection signal limit tokens = (limit, tokens) := by
  rw [passSection.eq_def]
  rcases ends with rfl | ⟨first, others, rfl, other⟩
  · rfl
  · cases limit with
    | zero => rfl
    | succ limit => simp only [if_neg other]

/-- A construct of the section is passed over. -/
theorem passSection_headed {signal : Signal} {tokens : List Token} (headed : Headed signal tokens)
    (later : Nat) (rest : List Token) :
    passSection signal (tokens.length + later) (tokens ++ rest) =
      passSection signal later rest := by
  obtain ⟨first, others, rfl, isFirst, span⟩ := headed
  obtain ⟨behind, left⟩ := skip_construct span rest later
  rw [List.length_cons, Nat.add_right_comm, List.cons_append, passSection.eq_def]
  simp only [if_pos isFirst, behind, left]

/-- A section is passed over. -/
theorem passSection_flatMap {α : Type} {signal : Signal} {tokens : α → List Token}
    {trees : List α} (headed : ∀ tree ∈ trees, Headed signal (tokens tree)) (later : Nat)
    (rest : List Token) :
    passSection signal ((trees.flatMap tokens).length + later) (trees.flatMap tokens ++ rest) =
      passSection signal later rest := by
  induction trees with
  | nil => simp
  | cons tree trees ih =>
      have remaining := ih fun other member => headed other (List.mem_cons_of_mem tree member)
      rw [List.flatMap_cons, List.length_append, List.append_assoc, Nat.add_assoc,
        passSection_headed (headed tree List.mem_cons_self), remaining]

/-! ### Types and fields -/

/-- The first token of a type counts its tokens. -/
theorem TypeTree.headed {tree : TypeTree} (spanned : tree.Spanned) :
    ∃ signal : Signal, Headed signal tree.tokens := by
  cases tree with
  | encoding leaf =>
      rw [TypeTree.tokens]
      exact ⟨.encoding, leaf, [], rfl, leaf.2.1, leaf.2.2⟩
  | enumeration tree =>
      rw [TypeTree.Spanned, EnumTree.Spanned, EnumTree.tokens, length_enclose] at spanned
      rw [TypeTree.tokens]
      exact ⟨.beginEnum, headed_enclose spanned⟩
  | set tree =>
      rw [TypeTree.Spanned, SetTree.Spanned, SetTree.tokens, length_enclose] at spanned
      rw [TypeTree.tokens]
      exact ⟨.beginSet, headed_enclose spanned⟩
  | composite opening members closing =>
      rw [TypeTree.Spanned] at spanned
      rw [TypeTree.tokens]
      exact ⟨.beginComposite, headed_enclose spanned.1⟩

theorem walkEnum_tokens {source : Source} {field : Token} {base : Nat} {tree : EnumTree} :
    walkEnum source field tree.tokens tree.opening base = tree.walk source field base := by
  have values : (tree.tokens.drop 1).dropLast = tree.values.map (·.1) := by
    rw [EnumTree.tokens, enclose, List.drop_one, List.tail_cons, List.dropLast_concat]
  rw [walkEnum, values, EnumTree.walk]

/-- The first token of the members of a composite decides where the next one starts. -/
theorem walkMembers_headed (source : Source) (field : Token) (start : Nat) {signal : Signal}
    {tokens : List Token} (headed : Headed signal tokens) (later : Nat) (rest : List Token) :
    walkMembers source field start (tokens.length + later) (tokens ++ rest) =
      walkComponent source field start (tokens ++ rest) >>= fun _ =>
        walkMembers source field start later rest := by
  obtain ⟨first, others, rfl, _, span⟩ := headed
  obtain ⟨behind, left⟩ := skip_construct span rest later
  rw [List.length_cons, Nat.add_right_comm, List.cons_append, walkMembers.eq_def]
  simp only [behind, left]

mutual

/-- The tokens of a type are read like the type, whatever follows them. -/
theorem walkComponent_tokens (source : Source) (field : Token) (base : Nat) :
    ∀ tree : TypeTree, tree.Spanned → ∀ rest : List Token,
      walkComponent source field base (tree.tokens ++ rest) = tree.walk source field base
  | .encoding leaf, _, rest => by
      rw [TypeTree.tokens, TypeTree.walk, List.singleton_append, walkComponent.eq_def]
      simp only [leaf.2.1]
  | .enumeration tree, spanned, rest => by
      rw [TypeTree.Spanned, EnumTree.Spanned, EnumTree.tokens, length_enclose] at spanned
      rw [TypeTree.tokens, TypeTree.walk, EnumTree.tokens, enclose_append, walkComponent.eq_def]
      simp only [tree.opening.2, construct_enclose spanned, Walk.check_ok_bind]
      exact walkEnum_tokens
  | .set tree, spanned, rest => by
      rw [TypeTree.Spanned, SetTree.Spanned, SetTree.tokens, length_enclose] at spanned
      rw [TypeTree.tokens, TypeTree.walk, SetTree.tokens, enclose_append, walkComponent.eq_def]
      simp only [tree.opening.2, construct_enclose spanned, Walk.check_ok_bind]
      rfl
  | .composite opening members closing, spanned, rest => by
      rw [TypeTree.Spanned] at spanned
      rw [TypeTree.tokens, TypeTree.walk, enclose_append, walkComponent.eq_def]
      have inside := fun start =>
        walkMembers_tokens source field start members spanned.2 (closing.1 :: rest)
      simp only [opening.2, construct_enclose spanned.1, Walk.check_ok_bind, length_enclose,
        Nat.add_sub_cancel, inside]

/-- The members of a composite are read one after another; the limit ends behind them. -/
theorem walkMembers_tokens (source : Source) (field : Token) (start : Nat) :
    ∀ members : List TypeTree, TypeTree.MembersSpanned members → ∀ rest : List Token,
      walkMembers source field start (TypeTree.memberTokens members).length
          (TypeTree.memberTokens members ++ rest) =
        TypeTree.walkMembers source field start members
  | [], _, rest => by
      rw [TypeTree.memberTokens, TypeTree.walkMembers, walkMembers.eq_def]
      rfl
  | member :: members, spanned, rest => by
      rw [TypeTree.MembersSpanned] at spanned
      obtain ⟨signal, headed⟩ := TypeTree.headed spanned.1
      rw [TypeTree.memberTokens, TypeTree.walkMembers, List.length_append, List.append_assoc,
        walkMembers_headed source field start headed,
        walkComponent_tokens source field start member spanned.1,
        walkMembers_tokens source field start members spanned.2]

end

theorem walkFields_ends {source : Source} {base limit : Nat} {tokens : List Token}
    (ends : Ends .beginField limit tokens) :
    walkFields source base limit tokens = Walk.done () := by
  rw [walkFields.eq_def]
  rcases ends with rfl | ⟨first, others, rfl, other⟩
  · rfl
  · cases limit with
    | zero => rfl
    | succ limit => simp only [if_neg other]

/-- The fields of a block are read one after another. -/
theorem walkFields_tokens (source : Source) (base : Nat) {fields : List FieldTree}
    (spanned : ∀ field ∈ fields, field.Spanned) {later : Nat} {rest : List Token}
    (ends : Ends .beginField later rest) :
    walkFields source base ((fields.flatMap FieldTree.tokens).length + later)
        (fields.flatMap FieldTree.tokens ++ rest) =
      FieldTree.walkList source base fields := by
  induction fields with
  | nil =>
      rw [List.flatMap_nil, List.length_nil, Nat.zero_add, List.nil_append, walkFields_ends ends,
        FieldTree.walkList]
  | cons field fields ih =>
      have others := ih fun other member => spanned other (List.mem_cons_of_mem field member)
      have isSpanned := spanned field List.mem_cons_self
      have span := isSpanned.opening
      rw [FieldTree.tokens, length_enclose] at span
      obtain ⟨behind, left⟩ := skip_enclose span field.closing
        (fields.flatMap FieldTree.tokens ++ rest)
        ((fields.flatMap FieldTree.tokens).length + later)
      have limit : (field.tokens ++ fields.flatMap FieldTree.tokens).length + later =
          field.type.tokens.length + 1 +
            ((fields.flatMap FieldTree.tokens).length + later) + 1 := by
        rw [List.length_append, FieldTree.tokens, length_enclose]
        omega
      rw [FieldTree.walkList, List.flatMap_cons, limit, List.append_assoc, FieldTree.tokens,
        enclose_append, walkFields.eq_def]
      simp only [if_pos field.opening.2, behind, left, others,
        walkComponent_tokens source field.opening base field.type isSpanned.type]
      rfl

/-! ### Variable data -/

theorem walkVarData_ends {source : Source} {position limit : Nat} {tokens : List Token}
    (ends : Ends .beginVarData limit tokens) :
    walkVarData source position limit tokens = Walk.done position := by
  rw [walkVarData.eq_def]
  rcases ends with rfl | ⟨first, others, rfl, other⟩
  · rfl
  · cases limit with
    | zero => rfl
    | succ limit => simp only [if_neg other]

/-- The length and the content of variable data are found behind the token of the composite. -/
theorem varDataLayout_tokens (tree : VarDataTree) :
    walkVarData.varDataLayout tree.opening tree.tokens =
      .ok (tree.layout.first.1, tree.layout.second.1) := by
  have both : tree.layout.first.1.signal = .encoding ∧ tree.layout.second.1.signal = .encoding :=
    ⟨tree.layout.first.2, tree.layout.second.2⟩
  rw [VarDataTree.tokens, EncodingPair.tokens, enclose, enclose]
  simp only [List.cons_append, walkVarData.varDataLayout, if_pos both]

/-- Variable data are read one after another. -/
theorem walkVarData_tokens (source : Source) {varData : List VarDataTree} {later : Nat}
    {rest : List Token} (ends : Ends .beginVarData later rest) :
    (∀ data ∈ varData, data.Spanned) → ∀ position,
      walkVarData source position ((varData.flatMap VarDataTree.tokens).length + later)
          (varData.flatMap VarDataTree.tokens ++ rest) =
        VarDataTree.walkList source position varData := by
  induction varData with
  | nil =>
      intro _ position
      rw [List.flatMap_nil, List.length_nil, Nat.zero_add, List.nil_append, walkVarData_ends ends,
        VarDataTree.walkList]
  | cons data others ih =>
      intro spanned position
      have following := ih fun other member => spanned other (List.mem_cons_of_mem data member)
      have span := (spanned data List.mem_cons_self).opening
      have isConstruct : ∀ behind, construct data.opening
          (data.layout.tokens ++ data.closing.1 :: behind) = .ok data.tokens :=
        construct_enclose (by rwa [VarDataTree.tokens, length_enclose] at span)
      rw [VarDataTree.tokens, length_enclose] at span
      obtain ⟨behind, left⟩ := skip_enclose span data.closing
        (others.flatMap VarDataTree.tokens ++ rest)
        ((others.flatMap VarDataTree.tokens).length + later)
      have limit : (data.tokens ++ others.flatMap VarDataTree.tokens).length + later =
          data.layout.tokens.length + 1 +
            ((others.flatMap VarDataTree.tokens).length + later) + 1 := by
        rw [List.length_append, VarDataTree.tokens, length_enclose]
        omega
      rw [VarDataTree.walkList, VarDataTree.walk, List.flatMap_cons, limit, List.append_assoc]
      conv => lhs; rw [VarDataTree.tokens, enclose_append, walkVarData.eq_def]
      simp only [if_pos data.opening.2, behind, left, following, isConstruct,
        varDataLayout_tokens, Walk.check_ok_bind, Walk.bind_assoc, Walk.done_bind]

/-! ### Groups and blocks -/

theorem walkGroups_ends {source : Source} {position limit : Nat} {tokens : List Token}
    (ends : Ends .beginGroup limit tokens) :
    walkGroups source position limit tokens = Walk.done position := by
  rw [walkGroups.eq_def]
  rcases ends with rfl | ⟨first, others, rfl, other⟩
  · rfl
  · cases limit with
    | zero => rfl
    | succ limit => simp only [if_neg other]

/-- A section ends where constructs of another signal begin, or where it would end without them. -/
theorem ends_flatMap {α : Type} {signal other : Signal} (different : other ≠ signal)
    {tokens : α → List Token} {trees : List α}
    (headed : ∀ tree ∈ trees, Headed other (tokens tree)) {later : Nat} {rest : List Token}
    (ends : Ends signal later rest) :
    Ends signal ((trees.flatMap tokens).length + later) (trees.flatMap tokens ++ rest) := by
  cases trees with
  | nil => simpa using ends
  | cons tree trees =>
      obtain ⟨first, others, shape, isFirst, _⟩ := headed tree List.mem_cons_self
      right
      refine ⟨first, others ++ (trees.flatMap tokens ++ rest), ?_, by rwa [isFirst]⟩
      rw [List.flatMap_cons, shape, List.append_assoc, List.cons_append]

theorem FieldTree.headed {tree : FieldTree} (spanned : tree.Spanned) :
    Headed .beginField tree.tokens := by
  have span := spanned.opening
  rw [FieldTree.tokens, length_enclose] at span
  exact headed_enclose span

theorem VarDataTree.headed {tree : VarDataTree} (spanned : tree.Spanned) :
    Headed .beginVarData tree.tokens := by
  have span := spanned.opening
  rw [VarDataTree.tokens, length_enclose] at span
  exact headed_enclose span

theorem GroupTree.headed : ∀ {tree : GroupTree}, tree.Spanned → Headed .beginGroup tree.tokens
  | .group opening dimensions body closing, spanned => by
      rw [GroupTree.Spanned] at spanned
      rw [GroupTree.tokens]
      exact headed_enclose spanned.1

theorem GroupTree.listTokens_eq_flatMap (groups : List GroupTree) :
    GroupTree.listTokens groups = groups.flatMap GroupTree.tokens := by
  induction groups with
  | nil => rfl
  | cons first others ih => rw [GroupTree.listTokens, List.flatMap_cons, ih]

theorem GroupTree.spanned_of_mem : ∀ {groups : List GroupTree}, GroupTree.ListSpanned groups →
    ∀ tree ∈ groups, tree.Spanned
  | [], _, tree, member => by cases member
  | first :: others, spanned, tree, member => by
      rw [GroupTree.ListSpanned] at spanned
      rcases List.mem_cons.mp member with rfl | later
      · exact spanned.1
      · exact GroupTree.spanned_of_mem spanned.2 tree later

section Sections

variable {fields : List FieldTree} {groups : List GroupTree} {varData : List VarDataTree}

/-- The variable data of a block end every section of another signal. -/
theorem BlockTree.varData_end (spanned : (BlockTree.block fields groups varData).Spanned)
    (signal : Signal) (different : .beginVarData ≠ signal) (rest : List Token) :
    Ends signal (varData.flatMap VarDataTree.tokens).length
      (varData.flatMap VarDataTree.tokens ++ rest) := by
  rw [BlockTree.Spanned] at spanned
  exact ends_flatMap different (fun data member => VarDataTree.headed (spanned.2.2 data member))
    (.inl rfl)

/-- What follows the fields of a block ends them. -/
theorem BlockTree.groups_end (spanned : (BlockTree.block fields groups varData).Spanned)
    (rest : List Token) :
    Ends .beginField
      ((GroupTree.listTokens groups).length + (varData.flatMap VarDataTree.tokens).length)
      (GroupTree.listTokens groups ++ (varData.flatMap VarDataTree.tokens ++ rest)) := by
  have varDataEnd := BlockTree.varData_end spanned .beginField (by decide) rest
  rw [BlockTree.Spanned] at spanned
  rw [GroupTree.listTokens_eq_flatMap]
  exact ends_flatMap (by decide)
    (fun group member => GroupTree.headed (GroupTree.spanned_of_mem spanned.2.1 group member))
    varDataEnd

/-- Behind the fields of a block stand its groups. -/
theorem BlockTree.passFields (spanned : (BlockTree.block fields groups varData).Spanned)
    (rest : List Token) :
    passSection .beginField (BlockTree.block fields groups varData).tokens.length
        ((BlockTree.block fields groups varData).tokens ++ rest) =
      ((GroupTree.listTokens groups).length + (varData.flatMap VarDataTree.tokens).length,
        GroupTree.listTokens groups ++ (varData.flatMap VarDataTree.tokens ++ rest)) := by
  have groupsEnd := BlockTree.groups_end spanned rest
  rw [BlockTree.Spanned] at spanned
  rw [BlockTree.tokens, List.length_append, List.length_append, List.append_assoc,
    List.append_assoc,
    passSection_flatMap fun field member => FieldTree.headed (spanned.1 field member),
    passSection_ends groupsEnd]

/-- Behind the groups of a block stand its variable data. -/
theorem BlockTree.passGroups (spanned : (BlockTree.block fields groups varData).Spanned)
    (rest : List Token) :
    passSection .beginGroup
        ((GroupTree.listTokens groups).length + (varData.flatMap VarDataTree.tokens).length)
        (GroupTree.listTokens groups ++ (varData.flatMap VarDataTree.tokens ++ rest)) =
      ((varData.flatMap VarDataTree.tokens).length,
        varData.flatMap VarDataTree.tokens ++ rest) := by
  have varDataEnd := BlockTree.varData_end spanned .beginGroup (by decide) rest
  rw [BlockTree.Spanned] at spanned
  rw [GroupTree.listTokens_eq_flatMap,
    passSection_flatMap fun group member =>
      GroupTree.headed (GroupTree.spanned_of_mem spanned.2.1 group member),
    passSection_ends varDataEnd]

end Sections

/-- The dimensions of a group are found behind its first token. -/
theorem dimensionsOf_tokens (opening : Token) (dimensions : EncodingPair)
    (behind : List Token) :
    dimensionsOf opening (opening :: (dimensions.tokens ++ behind)) =
      .ok dimensions.dimensions := by
  have all : dimensions.opening.1.signal = .beginComposite ∧
      dimensions.first.1.signal = .encoding ∧ dimensions.second.1.signal = .encoding :=
    ⟨dimensions.opening.2, dimensions.first.2, dimensions.second.2⟩
  rw [EncodingPair.tokens, enclose]
  simp only [List.cons_append, dimensionsOf, if_pos all]
  rfl

mutual

/-- A group is read, and then the groups that follow it. -/
theorem walkGroups_group (source : Source) : ∀ tree : GroupTree, tree.Spanned →
    ∀ (position later : Nat) (rest : List Token),
      walkGroups source position (tree.tokens.length + later) (tree.tokens ++ rest) =
        tree.walk source position >>= fun next => walkGroups source next later rest
  | .group opening dimensions body closing, spanned, position, later, rest => by
      rw [GroupTree.Spanned] at spanned
      obtain ⟨span, dimensionsSpan, bodySpanned⟩ := spanned
      obtain ⟨behind, left⟩ := skip_enclose span closing rest later
      have limit : (dimensions.tokens ++ body.tokens).length + 2 + later =
          (dimensions.tokens ++ body.tokens).length + 1 + later + 1 := by
        omega
      have found : dimensionsOf opening
          (enclose opening (dimensions.tokens ++ body.tokens) closing) =
            .ok dimensions.dimensions := by
        rw [enclose, List.append_assoc]
        exact dimensionsOf_tokens opening dimensions _
      have skipped : dimensions.dimensions.composite.span = dimensions.tokens.length :=
        dimensionsSpan
      have bodyTokens : (dimensions.tokens ++ body.tokens ++ closing.1 :: rest).drop
          dimensions.tokens.length = body.tokens ++ closing.1 :: rest := by
        rw [List.append_assoc]
        exact List.drop_left
      have bodyLimit : (dimensions.tokens ++ body.tokens).length - dimensions.tokens.length =
          body.tokens.length := by
        rw [List.length_append]
        omega
      have entry := fun start blockLength =>
        walkBlock_tokens source body bodySpanned start blockLength (closing.1 :: rest)
      rw [GroupTree.tokens, GroupTree.walk, length_enclose, limit, enclose_append,
        walkGroups.eq_def]
      simp only [if_pos opening.2, construct_enclose span, found, Walk.check_ok_bind, behind, left,
        skipped, bodyTokens, length_enclose, Nat.add_sub_cancel, bodyLimit, entry,
        Walk.iterate_eq_inTurn, Walk.bind_assoc]

/-- Groups are read one after another. -/
theorem walkGroups_tokens (source : Source) : ∀ groups : List GroupTree,
    GroupTree.ListSpanned groups → ∀ (position later : Nat) (rest : List Token),
      Ends .beginGroup later rest →
        walkGroups source position ((GroupTree.listTokens groups).length + later)
            (GroupTree.listTokens groups ++ rest) =
          GroupTree.walkList source position groups
  | [], _, position, later, rest, ends => by
      rw [GroupTree.listTokens, List.length_nil, Nat.zero_add, List.nil_append,
        walkGroups_ends ends, GroupTree.walkList]
  | group :: groups, spanned, position, later, rest, ends => by
      rw [GroupTree.ListSpanned] at spanned
      rw [GroupTree.listTokens, List.length_append, List.append_assoc, Nat.add_assoc,
        walkGroups_group source group spanned.1, GroupTree.walkList]
      have following := fun next =>
        walkGroups_tokens source groups spanned.2 next later rest ends
      simp only [following]

/-- A block is read with everything that follows it; its limit ends behind its tokens. -/
theorem walkBlock_tokens (source : Source) : ∀ body : BlockTree, body.Spanned →
    ∀ (start blockLength : Nat) (rest : List Token),
      walkBlock source start blockLength body.tokens.length (body.tokens ++ rest) =
        body.walk source start blockLength
  | .block fields groups varData, spanned, start, blockLength, rest => by
      have groupsEnd := BlockTree.groups_end spanned rest
      have varDataEnd := BlockTree.varData_end spanned .beginGroup (by decide) rest
      have fieldsPassed := BlockTree.passFields spanned rest
      have groupsPassed := BlockTree.passGroups spanned rest
      rw [BlockTree.Spanned] at spanned
      obtain ⟨fieldsSpanned, groupsSpanned, varDataSpanned⟩ := spanned
      have groupsRead := fun position =>
        walkGroups_tokens source groups groupsSpanned position _ _ varDataEnd
      have varDataRead := @walkVarData_tokens source varData 0 rest (.inl rfl) varDataSpanned
      rw [BlockTree.walk, walkBlock.eq_def, fieldsPassed]
      simp only [groupsPassed]
      rw [BlockTree.tokens, List.length_append, List.length_append, List.append_assoc,
        List.append_assoc, walkFields_tokens source start fieldsSpanned groupsEnd]
      simp only [groupsRead]
      simp only [Nat.add_zero] at varDataRead
      simp only [varDataRead]

end

/-- Reading the flat form of a message is reading its tree. -/
theorem decode_tokens {tree : MessageTree} (spanned : tree.body.Spanned) (buffer : Buffer)
    (offset : Nat) (actingVersion : Int32) (blockLength : Nat) :
    decode buffer offset actingVersion blockLength tree.tokens =
      tree.walk ⟨buffer, actingVersion⟩ offset blockLength := by
  have last : (tree.body.tokens ++ [tree.closing.1]).getLast? = some tree.closing.1 :=
    List.getLast?_concat
  rw [decode, MessageTree.tokens, enclose, walkMessage]
  simp only [last, if_pos (And.intro tree.opening.2 tree.closing.2), List.length_append,
    List.length_singleton, Nat.add_sub_cancel, walkBlock_tokens _ tree.body spanned]
  rw [MessageTree.walk]

end WireSchema
