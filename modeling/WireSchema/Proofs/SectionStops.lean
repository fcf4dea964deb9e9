/-
Module: WireSchema.Proofs.SectionStops
Purpose: The sections of a stored message are found in two ways: they are collected from its body,
  and the reader of a message passes along them.  Both ways end at the same places
  (`SchemaDraft.addMessage_sections`).  The sections that are collected make up the whole body.  The
  reader, whose indices count the token in front of the body too, has the fields behind it where the
  groups are collected from, and the groups where the variable data are.
Main exports: SplitsAt, ReadersStopAt, SchemaDraft.addMessage_sections
-/
import WireSchema.Proofs.StoredMessage
import WireSchema.Proofs.UntrappedReading
import WireSchema.Token.Sections

namespace WireSchema

/-! ### What is collected -/

/-- The construct in front is collected. -/
theorem leadingConstructs_headed {signal : Signal} {tokens : List Token}
    (headed : Headed signal tokens) (rest : List Token) :
    leadingConstructs signal (tokens ++ rest) = tokens ++ leadingConstructs signal rest := by
  obtain ⟨first, others, rfl, isFirst, span⟩ := headed
  have taken : (first :: (others ++ rest)).take (others.length + 1) = first :: others := by
    rw [List.take_succ_cons, List.take_left]
  rw [List.cons_append, leadingConstructs, if_pos isFirst, span, taken, Nat.add_sub_cancel,
    List.drop_left]

theorem leadingConstructs_ends {signal : Signal} {limit : Nat} {tokens : List Token}
    (ends : Ends signal limit tokens) (inside : tokens.length ≤ limit) :
    leadingConstructs signal tokens = [] := by
  rcases ends with rfl | ⟨first, others, rfl, other⟩
  · rw [List.length_eq_zero_iff.mp (Nat.le_zero.mp inside), leadingConstructs]
  · rw [leadingConstructs, if_neg other]

/-- A section is collected up to what ends it. -/
theorem leadingConstructs_flatMap {α : Type} {signal : Signal} {tokens : α → List Token}
    {trees : List α} (headed : ∀ tree ∈ trees, Headed signal (tokens tree)) {limit : Nat}
    {rest : List Token} (ends : Ends signal limit rest) (inside : rest.length ≤ limit) :
    leadingConstructs signal (trees.flatMap tokens ++ rest) = trees.flatMap tokens := by
  induction trees with
  | nil => exact leadingConstructs_ends ends inside
  | cons tree trees ih =>
      have later := ih fun other member => headed other (List.mem_cons_of_mem tree member)
      rw [List.flatMap_cons, List.append_assoc,
        leadingConstructs_headed (headed tree List.mem_cons_self), later]

/-- The sections of a body as they are collected: those of some fields, groups and variable data,
the groups from one place on and the variable data from another. -/
structure SplitsAt (body : List Token) (fields : List FieldTree) (groups : List GroupTree)
    (varData : List VarDataTree) (groupsAt varDataAt : Nat) : Prop where
  collectedFields : collectFields body 0 = (groupsAt, fields.flatMap FieldTree.tokens)
  collectedGroups : collectGroups body groupsAt = (varDataAt, groups.flatMap GroupTree.tokens)
  collectedVarData : collectVarData body varDataAt =
    (body.length, varData.flatMap VarDataTree.tokens)
  whole : fields.flatMap FieldTree.tokens ++ groups.flatMap GroupTree.tokens ++
    varData.flatMap VarDataTree.tokens = body

section Sections

variable {fields : List FieldTree} {groups : List GroupTree} {varData : List VarDataTree}

/-- A body with right spans is collected section by section. -/
theorem BlockTree.splitsAt (spanned : (BlockTree.block fields groups varData).Spanned) :
    SplitsAt (BlockTree.block fields groups varData).tokens fields groups varData
      (fields.flatMap FieldTree.tokens).length
      ((fields.flatMap FieldTree.tokens).length + (GroupTree.listTokens groups).length) := by
  have groupsEnd := BlockTree.groups_end spanned []
  have varDataEnd := BlockTree.varData_end spanned .beginGroup (by decide) []
  rw [BlockTree.Spanned] at spanned
  obtain ⟨fieldsSpanned, groupsSpanned, varDataSpanned⟩ := spanned
  have fieldsFound : leadingConstructs .beginField (BlockTree.block fields groups varData).tokens =
      fields.flatMap FieldTree.tokens := by
    rw [BlockTree.tokens]
    rw [List.append_nil] at groupsEnd
    exact leadingConstructs_flatMap
      (fun field member => FieldTree.headed (fieldsSpanned field member))
      groupsEnd (Nat.le_of_eq List.length_append)
  have groupsFound : leadingConstructs .beginGroup
      (GroupTree.listTokens groups ++ varData.flatMap VarDataTree.tokens) =
        groups.flatMap GroupTree.tokens := by
    rw [List.append_nil] at varDataEnd
    rw [GroupTree.listTokens_eq_flatMap]
    exact leadingConstructs_flatMap
      (fun group member => GroupTree.headed (GroupTree.spanned_of_mem groupsSpanned group member))
      varDataEnd (Nat.le_refl _)
  have varDataFound : leadingConstructs .beginVarData (varData.flatMap VarDataTree.tokens) =
      varData.flatMap VarDataTree.tokens := by
    have alone := leadingConstructs_flatMap
      (fun data member => VarDataTree.headed (varDataSpanned data member))
      (show Ends .beginVarData 0 [] from .inl rfl) (Nat.le_refl 0)
    rwa [List.append_nil] at alone
  refine ⟨?_, ?_, ?_, ?_⟩
  · rw [collectFields, collectSection, List.drop_zero, fieldsFound, Nat.zero_add]
  · rw [collectGroups, collectSection, BlockTree.tokens, List.drop_left, groupsFound,
      GroupTree.listTokens_eq_flatMap]
  · rw [collectVarData, collectSection, BlockTree.tokens, ← List.append_assoc,
      ← List.length_append, List.drop_left, varDataFound, ← List.length_append]
  · rw [BlockTree.tokens, GroupTree.listTokens_eq_flatMap, List.append_assoc]

end Sections

theorem messageBody_enclose (opening closing : Token) (body : List Token) :
    messageBody (enclose opening body closing) = body := by
  rw [messageBody, enclose, List.drop_one, List.tail_cons, List.dropLast_concat]

/-! ### Where the reader stops -/

/-- The places that the readers of the sections of a message come to.  They are carried out by
indices without a trap, and whenever one of them ends well it ends at its place; and reading the
message is reading its fields, its groups from the one place on and its variable data from the
other. -/
structure ReadersStopAt (tokens : List Token) (groupsAt varDataAt : Nat) : Prop where
  fields : ∀ {source : Source}, Guarded.InMemory source tokens → ∀ base, ∃ walk,
    Guarded.readFields source tokens 1 (tokens.length - 1) base = .completed walk ∧
      ∀ stop, walk.outcome = .ok stop → stop.1 = groupsAt
  groups : ∀ {source : Source}, Guarded.InMemory source tokens → ∀ position, ∃ walk,
    Guarded.readGroups source tokens groupsAt (tokens.length - 1) position = .completed walk ∧
      ∀ reached stop, walk.outcome = .ok (reached, stop) → stop.1 = varDataAt
  decoded : ∀ (buffer : Buffer) (offset : Nat) (actingVersion : Int32) (blockLength : Nat),
    ∃ opening closing, decode buffer offset actingVersion blockLength tokens =
      Walk.bracket (.beginMessage opening) (.endMessage closing) opening.name (do
        let source : Source := ⟨buffer, actingVersion⟩
        walkFields source offset (tokens.length - 1 - 1) (tokens.drop 1)
        let position ← walkGroups source (advance offset blockLength)
          (tokens.length - 1 - groupsAt) (tokens.drop groupsAt)
        walkVarData source position (tokens.length - 1 - varDataAt) (tokens.drop varDataAt))

/-- A loop over a section passes to one place inside the list. -/
theorem Guarded.PassesTo.unique {signal : Signal} {tokens : List Token}
    {stop index next place : Nat} (one : PassesTo signal tokens stop index next)
    (other : PassesTo signal tokens stop index place) (inside : place < tokens.length) :
    next = place := by
  rw [PassesTo] at one other
  rw [one] at other
  have left := congrArg (fun passed => passed.2.length) other
  simp only [List.length_drop] at left
  omega

/-- The readers stop where the loops over the fields and over the groups pass to. -/
theorem ReadersStopAt.of_passesTo {opening closing : Token} {body tokens : List Token}
    (isMessage : tokens = enclose opening body closing)
    (opens : opening.signal = .beginMessage) (closes : closing.signal = .endMessage)
    {groupsAt varDataAt : Nat}
    (passFields : Guarded.PassesTo .beginField tokens (tokens.length - 1) 1 groupsAt)
    (passGroups : Guarded.PassesTo .beginGroup tokens (tokens.length - 1) groupsAt varDataAt)
    (groupsInside : groupsAt < tokens.length) (varDataInside : varDataAt < tokens.length) :
    ReadersStopAt tokens groupsAt varDataAt where
  fields := by
    intro source inMemory base
    obtain ⟨next, passes, reads⟩ := Guarded.readFields_eq inMemory base
      (show tokens.length - 1 < tokens.length by omega) 1
    refine ⟨_, reads, fun stop ended => ?_⟩
    obtain ⟨_, _, isStop⟩ := Walk.ok_of_bind ended
    cases isStop
    exact passes.unique passFields groupsInside
  groups := by
    intro source inMemory position
    obtain ⟨next, passes, reads⟩ := Guarded.readGroups_eq inMemory
      (show tokens.length - 1 < tokens.length by omega) groupsAt
    refine ⟨_, reads position, fun reached stop ended => ?_⟩
    obtain ⟨_, _, isStop⟩ := Walk.ok_of_bind ended
    cases isStop
    exact passes.unique passGroups varDataInside
  decoded := by
    intro buffer offset actingVersion blockLength
    refine ⟨opening, closing, ?_⟩
    have framed : decode buffer offset actingVersion blockLength tokens =
        Walk.bracket (.beginMessage opening) (.endMessage closing) opening.name
          (walkBlock ⟨buffer, actingVersion⟩ offset blockLength (tokens.length - 1 - 1)
            (tokens.drop 1)) := by
      have last : (body ++ [closing]).getLast? = some closing := List.getLast?_concat
      rw [isMessage, decode, enclose, walkMessage]
      simp only [last, if_pos (And.intro opens closes), List.length_cons, Nat.add_sub_cancel,
        List.drop_one, List.tail_cons]
    rw [Guarded.PassesTo] at passFields passGroups
    rw [framed, walkBlock, passFields]
    simp only [passGroups]

section Message

variable {fields : List FieldTree} {groups : List GroupTree} {varData : List VarDataTree}

/-- The reader of a message with right spans stops behind its fields and behind its groups. -/
theorem MessageTree.readersStopAt (spanned : (BlockTree.block fields groups varData).Spanned)
    (opening : TokenOf .beginMessage) (closing : TokenOf .endMessage) :
    ReadersStopAt (MessageTree.mk opening (.block fields groups varData) closing).tokens
      ((fields.flatMap FieldTree.tokens).length + 1)
      ((fields.flatMap FieldTree.tokens).length + (GroupTree.listTokens groups).length + 1) := by
  obtain ⟨tokens, isMessage⟩ : ∃ tokens, tokens =
      enclose opening (BlockTree.block fields groups varData).tokens closing := ⟨_, rfl⟩
  have fieldsPassed := BlockTree.passFields spanned [closing.1]
  have groupsPassed := BlockTree.passGroups spanned [closing.1]
  have bodyLength : (BlockTree.block fields groups varData).tokens.length =
      (fields.flatMap FieldTree.tokens).length + (GroupTree.listTokens groups).length +
        (varData.flatMap VarDataTree.tokens).length := by
    rw [BlockTree.tokens, List.length_append, List.length_append, Nat.add_assoc]
  have length : tokens.length = (BlockTree.block fields groups varData).tokens.length + 2 := by
    rw [isMessage, length_enclose]
  have parts : tokens = opening.1 :: (fields.flatMap FieldTree.tokens ++
      (GroupTree.listTokens groups ++ (varData.flatMap VarDataTree.tokens ++ [closing.1]))) := by
    rw [isMessage]
    simp only [enclose, BlockTree.tokens, List.append_assoc]
  have atBody : tokens.drop 1 = (BlockTree.block fields groups varData).tokens ++ [closing.1] := by
    rw [isMessage]
    rfl
  have atGroups : tokens.drop ((fields.flatMap FieldTree.tokens).length + 1) =
      GroupTree.listTokens groups ++ (varData.flatMap VarDataTree.tokens ++ [closing.1]) := by
    rw [parts, List.drop_succ_cons, List.drop_left]
  have atVarData : tokens.drop
      ((fields.flatMap FieldTree.tokens).length + (GroupTree.listTokens groups).length + 1) =
        varData.flatMap VarDataTree.tokens ++ [closing.1] := by
    rw [parts, List.drop_succ_cons, ← List.append_assoc, ← List.length_append, List.drop_left]
  -- how many tokens of the body are left at each of the places
  have fieldsLimit : tokens.length - 1 - 1 =
      (BlockTree.block fields groups varData).tokens.length := by
    omega
  have groupsLimit : tokens.length - 1 - ((fields.flatMap FieldTree.tokens).length + 1) =
      (GroupTree.listTokens groups).length + (varData.flatMap VarDataTree.tokens).length := by
    omega
  have varDataLimit : tokens.length - 1 -
      ((fields.flatMap FieldTree.tokens).length + (GroupTree.listTokens groups).length + 1) =
        (varData.flatMap VarDataTree.tokens).length := by
    omega
  rw [MessageTree.tokens, ← isMessage]
  apply ReadersStopAt.of_passesTo isMessage opening.2 closing.2
  · rw [Guarded.PassesTo, fieldsLimit, groupsLimit, atBody, atGroups, fieldsPassed]
  · rw [Guarded.PassesTo, groupsLimit, varDataLimit, atGroups, atVarData, groupsPassed]
  · omega
  · omega

end Message

/-- The sections of a message that a draft has stored are collected from its body as the reader of
the message passes along them: the tokens that are collected are those of the fields, the groups and
the variable data of the stored message, in order and without anything left over, and the places
where the fields and the groups end are those where the reader stops, one token further on. -/
theorem SchemaDraft.addMessage_sections {draft extended : SchemaDraft} {messageId : Int64}
    {message : MessageTree} (accepted : draft.addMessage messageId message.tokens = .ok extended)
    (countable : message.tokens.length < spanLimit) :
    ∃ stored fields groups varData groupsAt varDataAt,
      extended.messages.get? messageId = some stored ∧
        stored = message.reduced.measured.tokens ∧
        message.reduced.measured.body = .block fields groups varData ∧
        SplitsAt (messageBody stored) fields groups varData groupsAt varDataAt ∧
        ReadersStopAt stored (groupsAt + 1) (varDataAt + 1) := by
  have stored := (SchemaDraft.addMessage_tokens accepted).2
  have spanned := SchemaDraft.spanned_of_addMessage accepted countable
  cases isTree : message.reduced.measured with
  | mk opening body closing =>
      rw [isTree] at stored spanned
      cases body with
      | block fields groups varData =>
          refine ⟨_, fields, groups, varData, _, _, stored, rfl, rfl, ?_,
            MessageTree.readersStopAt spanned opening closing⟩
          rw [MessageTree.tokens, messageBody_enclose]
          exact BlockTree.splitsAt spanned

/-- The order has two fields, a group behind them, and no variable data of its own. -/
theorem SchemaDraft.addMessage_sections_order :
    ∃ extended, emptyDraft.addMessage 1 orderMessage.tokens = .ok extended ∧
      orderMessage.tokens.length < spanLimit ∧
      ∃ stored fields groups varData groupsAt varDataAt,
        extended.messages.get? 1 = some stored ∧
          stored = orderMessage.reduced.measured.tokens ∧
          orderMessage.reduced.measured.body = .block fields groups varData ∧
          SplitsAt (messageBody stored) fields groups varData groupsAt varDataAt ∧
          ReadersStopAt stored (groupsAt + 1) (varDataAt + 1) := by
  obtain ⟨extended, accepted⟩ := orderMessage_accepted
  have countable : orderMessage.tokens.length < spanLimit := by decide
  exact ⟨extended, accepted, countable, SchemaDraft.addMessage_sections accepted countable⟩

/-- The two fields of an order, one of them with its enum reduced, and its group of legs. -/
example : (storedAlone orderMessage.tokens).map (fun stored =>
    ((collectFields (messageBody stored) 0).1, (collectGroups (messageBody stored) 14).1,
      (collectVarData (messageBody stored) 26).1, (messageBody stored).length)) =
    some (14, 26, 26, 26) := by
  cbv

end WireSchema
