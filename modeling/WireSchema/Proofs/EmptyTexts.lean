/-
Module: WireSchema.Proofs.EmptyTexts
Purpose: In the stored form an absent text is an empty one, so an optional text that is there and
  empty is stored as if it were absent.  A schema is stored as the same bytes when all such texts
  are left out of it (`Schema.store_pruned`).  Nothing that a draft does depends on them, except
  that types may differ in them: types that had the same layout have the same layout without them.
Main exports: Schema.pruned, Schema.store_pruned
-/
import WireSchema.Proofs.StoredRoundTrip

namespace WireSchema

/-! ### Without empty texts -/

/-- A text that is there, unless it is empty. -/
def nonemptyText (text : Option String) : Option String :=
  text.filter (· ≠ "")

/-- The encoding without the texts that are there and empty. -/
def Encoding.pruned (encoding : Encoding) : Encoding :=
  { encoding with
    characterEncoding := nonemptyText encoding.characterEncoding
    epoch := nonemptyText encoding.epoch
    timeUnit := nonemptyText encoding.timeUnit
    semanticType := nonemptyText encoding.semanticType }

/-- The token without the texts that are there and empty. -/
def Token.pruned (token : Token) : Token :=
  { token with
    description := nonemptyText token.description
    encoding := token.encoding.pruned }

/-- What a schema says about itself, without the texts that are there and empty. -/
def SchemaIdentity.pruned (identity : SchemaIdentity) : SchemaIdentity :=
  { identity with
    namespaceName := nonemptyText identity.namespaceName
    semanticVersion := nonemptyText identity.semanticVersion }

/-- The schema without the texts that are there and empty in what is stored of it. -/
def Schema.pruned (schema : Schema) : Schema :=
  { schema with
    identity := schema.identity.pruned
    header := { schema.header with tokens := schema.header.tokens.map Token.pruned }
    messages :=
      ⟨schema.messages.entries.map fun entry => (entry.1, entry.2.map Token.pruned)⟩ }

theorem nonemptyText_ne (text : Option String) : nonemptyText text ≠ some "" := by
  intro same
  have kept := (Option.filter_eq_some_iff.mp same).2
  simp at kept

/-! ### The stored form -/

theorem storedText_nonemptyText (field : String) (text : Option String) :
    storedText (field, nonemptyText text) = storedText (field, text) := by
  have content : (nonemptyText text).getD "" = text.getD "" := by
    cases text with
    | none => rfl
    | some content => exact getD_filter_nonempty content
  rw [storedText, storedText, content]

theorem storedToken_pruned (token : Token) : storedToken token.pruned = storedToken token := by
  have texts : storedTexts (tokenTexts token.pruned) = storedTexts (tokenTexts token) := by
    simp only [tokenTexts, Token.pruned, Encoding.pruned, storedTexts, List.mapM_cons,
      storedText_nonemptyText]
  rw [storedToken, texts]
  rfl

theorem storedFrame_pruned (identity : SchemaIdentity) :
    storedFrame identity.pruned = storedFrame identity := by
  simp only [storedFrame, SchemaIdentity.pruned, storedTexts, List.mapM_cons,
    storedText_nonemptyText]

theorem Schema.storedTokens_pruned (schema : Schema) :
    schema.pruned.storedTokens = schema.storedTokens.map Token.pruned := by
  rw [storedTokens, storedTokens, List.map_append, List.map_flatMap]
  simp only [Schema.pruned, List.flatMap_map]

/-- Empty optional texts are stored like absent ones. -/
theorem Schema.store_pruned (schema : Schema) : schema.pruned.store = schema.store := by
  have tokens : schema.pruned.storedTokens.mapM storedToken =
      schema.storedTokens.mapM storedToken := by
    rw [storedTokens_pruned, List.mapM_map]
    exact congrArg (fun step => schema.storedTokens.mapM step) (funext storedToken_pruned)
  have frame : storedFrame schema.pruned.identity = storedFrame schema.identity :=
    storedFrame_pruned schema.identity
  rw [Schema.store, tokens, frame]
  rfl

theorem SchemaIdentity.pruned_legible (identity : SchemaIdentity) : identity.pruned.Legible :=
  ⟨nonemptyText_ne _, nonemptyText_ne _⟩

theorem Token.pruned_legible {token : Token}
    (values : ∀ value ∈ token.encoding.values, value.Legible token.encoding.primitiveType) :
    token.pruned.Legible where
  values := values
  remarks := by
    simp only [remarks, List.mem_cons, List.not_mem_nil, or_false, not_or]
    exact ⟨(nonemptyText_ne _).symm, (nonemptyText_ne _).symm, (nonemptyText_ne _).symm,
      (nonemptyText_ne _).symm, (nonemptyText_ne _).symm⟩

/-! ### Messages -/

theorem emptiedConstant_pruned (token : Token) :
    emptiedConstant token.pruned = (emptiedConstant token).pruned := by
  unfold emptiedConstant
  change (if token.signal = .encoding ∧ token.isConstant = true then token.pruned.emptied
    else token.pruned) = _
  split <;> rfl

theorem map_pruned_enclose (opening : Token) (inner : List Token) (closing : Token) :
    (enclose opening inner closing).map Token.pruned =
      enclose opening.pruned (inner.map Token.pruned) closing.pruned := by
  simp [enclose]

theorem unspanned_pruned {token other : Token} (same : token.unspanned = other.unspanned) :
    token.pruned.unspanned = other.pruned.unspanned :=
  (congrArg Token.pruned same : token.unspanned.pruned = other.unspanned.pruned)

/-- What is kept of a message does not depend on empty texts. -/
theorem Kept.pruned {insideType : Bool} {tokens stored : List Token}
    (kept : Kept insideType tokens stored) :
    Kept insideType (tokens.map Token.pruned) (stored.map Token.pruned) := by
  induction kept with
  | nil => exact .nil
  | @leaf insideType token stored rest storedRest opensNothing closesNothing same _ ih =>
      refine .leaf opensNothing closesNothing ?_ ih
      rw [emptiedConstant_pruned]
      exact unspanned_pruned same
  | @construct insideType component opening closing storedOpening storedClosing inner storedInner
      rest storedRest opens closes noMessage named plain sameOpening sameClosing _ _ ihInside
      ihLater =>
      rw [List.map_append, List.map_append, map_pruned_enclose, map_pruned_enclose]
      refine .construct opens closes noMessage named ?_ (unspanned_pruned sameOpening)
        (unspanned_pruned sameClosing) ihInside ihLater
      cases storedInner <;> exact plain
  | @constantField field opening closing ending values behind rest storedField storedOpening value
      storedClosing storedEnding kept storedBehind storedRest isField constant opens isValue closes
      named endsField fieldNamed within referred sameField sameOpening sameValue sameClosing
      sameEnding _ _ ihInside ihLater =>
      have sameKept : value.pruned.unspanned = kept.pruned.emptied.fixed.unspanned :=
        unspanned_pruned sameValue
      simp only [List.map_append, map_pruned_enclose, List.map_cons, List.map_nil]
      exact .constantField isField constant opens isValue closes named endsField fieldNamed
        (List.forall_mem_map.mpr within) referred (unspanned_pruned sameField)
        (unspanned_pruned sameOpening) sameKept (unspanned_pruned sameClosing)
        (unspanned_pruned sameEnding) ihInside ihLater

theorem KeptMessage.pruned {tokens stored : List Token} (kept : KeptMessage tokens stored) :
    KeptMessage (tokens.map Token.pruned) (stored.map Token.pruned) := by
  obtain ⟨opens, closes, sameOpening, sameClosing, inside⟩ := kept
  rw [map_pruned_enclose, map_pruned_enclose]
  exact .message opens closes (unspanned_pruned sameOpening) (unspanned_pruned sameClosing)
    inside.pruned

/-! ### Types and headers -/

theorem LayoutAgrees.pruned {atEnd : Prop} {one other : Token}
    (same : LayoutAgrees atEnd one other) : LayoutAgrees atEnd one.pruned other.pruned := by
  obtain ⟨signal, name, encodedLength, encoding, offset⟩ := same
  refine ⟨signal, name, encodedLength, ?_, offset⟩
  simp only [Encoding.agrees, Bool.and_eq_true, beq_iff_eq] at encoding ⊢
  obtain ⟨⟨⟨⟨values, characters⟩, epoch⟩, unit⟩, semantics⟩ := encoding
  exact ⟨⟨⟨⟨values, congrArg nonemptyText characters⟩, congrArg nonemptyText epoch⟩,
    congrArg nonemptyText unit⟩, congrArg nonemptyText semantics⟩

theorem HeaderShaped.pruned {tokens : List Token} (shaped : HeaderShaped tokens) :
    HeaderShaped (tokens.map Token.pruned) := by
  obtain ⟨opening, inner, closing, rfl, opens, closes, named, ⟨measured, measures⟩, unambiguous⟩ :=
    shaped
  have sameSignals : (inner.map Token.pruned).map Token.signal = inner.map Token.signal := by
    rw [List.map_map]
    rfl
  exact ⟨opening.pruned, inner.map Token.pruned, closing.pruned, map_pruned_enclose _ _ _, opens,
    closes, named, ⟨_, measures.respan sameSignals⟩, List.forall_mem_map.mpr unambiguous⟩

/-- Whether tokens describe a header is a matter of their signals and names. -/
theorem HeaderStructure.exists_ofTokens {tokens others : List Token} {header : HeaderStructure}
    (isHeader : ofTokens tokens = .ok header)
    (alike : others.map (fun token => (token.signal, token.name)) =
      tokens.map fun token => (token.signal, token.name)) :
    ∃ again, ofTokens others = .ok again := by
  have findsField : ∀ {name : String} {found : Token}, findField tokens name = .ok found →
      ∃ other, findField others name = .ok other := by
    intro name found isFound
    have asPair : Token.isNamed .encoding name =
        (fun pair : Signal × String => pair.1 == .encoding && pair.2 == name) ∘
          fun token : Token => (token.signal, token.name) := rfl
    have sameSearch := congrArg
      (fun pairs => (pairs.find? fun pair => pair.1 == .encoding && pair.2 == name).isSome) alike
    simp only [List.find?_map, Option.isSome_map, ← asPair] at sameSearch
    rw [findField] at isFound ⊢
    cases search : tokens.find? (Token.isNamed .encoding name) with
    | none =>
        rw [search] at isFound
        cases isFound
    | some token =>
        rw [search, Option.isSome_some, Option.isSome_iff_exists] at sameSearch
        obtain ⟨other, isOther⟩ := sameSearch
        rw [isOther]
        exact ⟨other, rfl⟩
  obtain ⟨blockLength, isBlockLength, isHeader⟩ := ok_of_bind isHeader
  obtain ⟨templateId, isTemplateId, isHeader⟩ := ok_of_bind isHeader
  obtain ⟨schemaId, isSchemaId, isHeader⟩ := ok_of_bind isHeader
  obtain ⟨schemaVersion, isSchemaVersion, isHeader⟩ := ok_of_bind isHeader
  obtain ⟨first, isFirst⟩ := findsField isBlockLength
  obtain ⟨second, isSecond⟩ := findsField isTemplateId
  obtain ⟨third, isThird⟩ := findsField isSchemaId
  obtain ⟨fourth, isFourth⟩ := findsField isSchemaVersion
  rw [ofTokens, bind_of_ok isFirst, bind_of_ok isSecond, bind_of_ok isThird, bind_of_ok isFourth]
  exact ⟨_, rfl⟩

/-- A header of a certain shape is found again in what is loaded of it. -/
theorem HeaderShaped.loads {tokens : List Token} {header : HeaderStructure}
    (shaped : HeaderShaped tokens) (isHeader : HeaderStructure.ofTokens tokens = .ok header) :
    ∃ measured again, withSpans ((tokens.map Token.pruned).map Token.reread) = .ok measured ∧
      HeaderStructure.ofTokens measured = .ok again := by
  obtain ⟨opening, inner, closing, rfl, opens, closes, _, ⟨_, measures⟩, _⟩ := shaped
  have whole := MeasuresTo.enclosed (congrArg Signal.opens? opens) (congrArg Signal.closes? closes)
    measures
  have sameSignals :
      (((enclose opening inner closing).map Token.pruned).map Token.reread).map Token.signal =
        (enclose opening inner closing).map Token.signal := by
    rw [List.map_map, List.map_map]
    rfl
  obtain ⟨measured, isMeasured⟩ : ∃ measured,
      withSpans (((enclose opening inner closing).map Token.pruned).map Token.reread) =
        .ok measured := ⟨_, withSpans_of_measuresTo (whole.respan sameSignals)⟩
  have alike := congrArg (List.map fun token => (token.signal, token.name))
    (unspanned_withSpans isMeasured)
  rw [List.map_map, List.map_map, List.map_map, List.map_map] at alike
  obtain ⟨again, isAgain⟩ := HeaderStructure.exists_ofTokens isHeader alike
  exact ⟨measured, again, isMeasured, isAgain⟩

end WireSchema
