/-
Module: WireSchema.Proofs.StoredAgain
Purpose: Adding a message takes it through passes that rewrite it: its constants are reduced and its
  spans are measured.  What is stored for a message of a schema has nothing left for any of them to
  do.  A draft that starts with nothing accepts it under any number, stores the same tokens, and has
  types of the same names in the same order (`SchemaDraft.addMessage_again`).
Main exports: TypeUse.KeptAs, reduceConstants_again, SchemaDraft.addMessage_again
-/
import WireSchema.Proofs.BuiltConstants
import WireSchema.Proofs.LoadedTypes
import WireSchema.Proofs.NamedTree

namespace WireSchema

/-!
That reducing settles is true of all tokens, nested or not (`reduceConstants_again`): of an enum
that was reduced to one value, that value is the first that its field refers to.
-/

/-! ### Reducing what was reduced -/

/-- A constant field in front of an enum that was reduced to the value that it refers to stays as
it is, also after it was measured, if what stands behind the enum does. -/
theorem reduceConstants_constantEnum_again {field opening kept closing storedField storedOpening
      storedKept storedClosing : Token} {body rest : List Token}
    (wraps : wrapsConstantEnum field (opening :: body) = true)
    (within : kept.signal ≠ .endEnum) (closes : closing.signal = .endEnum)
    (refers : refersTo (valueReference field) kept.name = true)
    (sameField : storedField.unspanned = field.unspanned)
    (sameOpening : storedOpening.unspanned = opening.emptied.unspanned)
    (sameKept : storedKept.unspanned = kept.emptied.fixed.unspanned)
    (sameClosing : storedClosing.unspanned = closing.emptied.unspanned)
    (later : ∀ index, reduceConstants index rest = .ok rest) (again : Nat) :
    reduceConstants again (storedField :: storedOpening :: storedKept :: storedClosing :: rest) =
      .ok (storedField :: storedOpening :: storedKept :: storedClosing :: rest) := by
  simp only [wrapsConstantEnum, Bool.and_eq_true, beq_iff_eq] at wraps
  obtain ⟨⟨isField, constant⟩, opens⟩ := wraps
  have storedOpens : storedOpening.signal = .beginEnum :=
    (signal_of_unspanned sameOpening).trans opens
  have storedWithin : storedKept.signal ≠ .endEnum := by
    rw [signal_of_unspanned sameKept]
    exact within
  have storedCloses : storedClosing.signal = .endEnum :=
    (signal_of_unspanned sameClosing).trans closes
  have storedRefers : refersTo (valueReference storedField) storedKept.name = true := by
    rw [valueReference, encoding_of_unspanned sameField, name_of_unspanned sameKept]
    exact refers
  have settled := Irreducible.constantEnum ((signal_of_unspanned sameField).trans isField)
    ((isConstant_of_unspanned sameField).trans constant) storedOpens
    (emptied_of_unspanned sameOpening) storedWithin (fixed_of_unspanned sameKept) storedCloses
    (emptied_of_unspanned sameClosing) storedRefers .nil again rest
  rw [later] at settled
  exact settled

/-- Whatever tokens were reduced, reducing them again changes nothing, also after they were
measured. -/
theorem reduceConstants_again {index : Nat} {tokens reduced stored : List Token}
    (accepted : reduceConstants index tokens = .ok reduced)
    (same : stored.map Token.unspanned = reduced.map Token.unspanned) (again : Nat) :
    reduceConstants again stored = .ok stored := by
  fun_induction reduceConstants index tokens generalizing reduced stored again with
  | case1 =>
      cases accepted
      cases List.map_eq_nil_iff.mp same
      rw [reduceConstants]
  | case2 index token wraps => simp [wrapsConstantEnum] at wraps
  | case3 => cases accepted
  | case4 => cases accepted
  | case5 index field opening body closing after ending values reference kept named =>
      rename_i wraps ih
      obtain ⟨later, isLater, accepted⟩ := ok_of_bind accepted
      cases accepted
      simp only [List.map_cons] at same
      obtain ⟨storedField, _, rfl, sameField, same⟩ := List.map_eq_cons_iff.mp same
      obtain ⟨storedOpening, _, rfl, sameOpening, same⟩ := List.map_eq_cons_iff.mp same
      obtain ⟨storedKept, _, rfl, sameKept, same⟩ := List.map_eq_cons_iff.mp same
      obtain ⟨storedClosing, rest, rfl, sameClosing, same⟩ := List.map_eq_cons_iff.mp same
      have within : kept.signal ≠ .endEnum := by
        simpa using List.mem_takeWhile_imp (List.mem_of_find?_eq_some named)
      have refers : refersTo reference kept.name = true := by simpa using List.find?_some named
      have stops := List.head?_dropWhile_not
        (fun token : Token => decide (token.signal ≠ .endEnum)) body
      rw [ending] at stops
      exact reduceConstants_constantEnum_again wraps within (by simpa using stops) refers sameField
        sameOpening sameKept sameClosing (ih isLater same) again
  | case6 index token rest plain ih =>
      obtain ⟨later, isLater, accepted⟩ := ok_of_bind accepted
      cases accepted
      rw [List.map_cons] at same
      obtain ⟨first, others, rfl, sameFirst, sameOthers⟩ := List.map_eq_cons_iff.mp same
      have stillPlain := wrapsConstantEnum_again (by simpa using plain) isLater sameFirst sameOthers
      rw [reduceConstants_cons stillPlain, ih isLater sameOthers,
        emptiedConstant_of_unspanned sameFirst]
      rfl

/-! ### Types that are captured again -/

theorem keepsLayout_emptiedConstant : KeepsLayout emptiedConstant where
  signal := signal_emptiedConstant
  constant token := congrArg (·.presence == .constant) (encoding_emptiedConstant token)
  agrees same := same.emptiedConstant

/-- A use of a type in a message, and the type that is captured for it in what is stored of the
message. -/
structure TypeUse.KeptAs (use : TypeUse) (type : String × List Token) : Prop where
  name : type.1 = use.name
  tokens : type.2.map Token.unspanned = use.reduced.tokens.map Token.unspanned

theorem TypeUse.Alike.keptAs {use other : TypeUse} {type : String × List Token}
    (alike : use.reduced.Alike (fun token other => other.unspanned = token.unspanned) other)
    (measured : MeasuredAs other.captured type) : use.KeptAs type where
  name := by
    have sameName : other.name = use.reduced.name := name_of_unspanned alike.opening
    rw [measured.name, ← use.name_reduced, ← sameName]
    rfl
  tokens := measured.unspanned.trans (forall₂_unspanned_iff.mp alike.tokens)

/-- A type that is fixed is stored as a reduced enum. -/
theorem TypeUse.isReducedEnum_reduced {use : TypeUse} (formed : use.Formed)
    (resolved : use.Resolved) (fixed : use.fixedBy.isSome) :
    isReducedEnum use.reduced.tokens = true := by
  obtain ⟨field, isField⟩ := Option.isSome_iff_exists.mp fixed
  obtain ⟨kept, isKept⟩ := Option.isSome_iff_exists.mp (resolved field isField)
  have opens : use.opening.emptied.signal = .beginEnum := formed.opensEnum fixed
  have isValue : kept.emptied.fixed.signal = .validValue :=
    formed.areValues fixed kept (List.mem_of_find?_eq_some isKept)
  have constant : kept.emptied.fixed.isConstant = true := rfl
  rw [TypeUse.tokens_reduced_of_fixed isField isKept]
  simp [isReducedEnum, opens, isValue, constant]

/-- A type that a message uses is captured again as itself without the lengths of constants, or as a
reduced enum. -/
theorem TypeUse.KeptAs.recaptured {use : TypeUse} {type again : String × List Token}
    (keptAs : use.KeptAs again) (measured : MeasuredAs use.captured type) (formed : use.Formed)
    (resolved : use.Resolved) : Recaptured emptiedConstant type again where
  name := keptAs.name.trans measured.name.symm
  layout := by
    cases fixed : use.fixedBy with
    | some field =>
        left
        rw [isReducedEnum_of_unspanned keptAs.tokens]
        exact TypeUse.isReducedEnum_reduced formed resolved (by rw [fixed]; rfl)
    | none =>
        right
        have changed : ∀ tokens : List Token, (tokens.map fun token =>
            (emptiedConstant token).unspanned) =
              (tokens.map Token.unspanned).map emptiedConstant := by
          intro tokens
          rw [List.map_map]
          exact List.map_congr_left fun token _ => (unspanned_emptiedConstant token).symm
        rw [keptAs.tokens, TypeUse.tokens_reduced_of_unfixed fixed, List.map_map, changed,
          measured.unspanned, ← changed]
        rfl

/-! ### Adding what was stored -/

section

variable {addition : Addition} {stored : List Token} {number : Int64} {uses : List TypeUse}

/-- The number that a message is added under does not matter to what is stored for it. -/
theorem Addition.StoredAs.renumbered (storedAs : addition.StoredAs stored)
    (message : MessageTokens number addition.tokens uses) :
    (Addition.mk number addition.tokens addition.types).StoredAs stored := by
  obtain ⟨checked, held, reduced⟩ := storedAs
  obtain ⟨opening, body, closing, isEnclosed, opens, closes, _⟩ := message
  rw [isEnclosed, checkMessage_enclose opens closes] at checked
  refine ⟨?_, held, reduced⟩
  rw [isEnclosed, checkMessage_enclose opens closes]
  exact checked

/-- What is stored for a message passes every check under any number and is stored as it is, and the
types that it holds are those that the message uses as they are stored. -/
theorem Addition.StoredAs.storedAgain (storedAs : addition.StoredAs stored)
    (message : MessageTokens number addition.tokens uses)
    (given : ∀ token ∈ addition.tokens, token.signal = .validValue →
      token.encoding.constValue ≠ none) (again : Int64) :
    ∃ types, (Addition.mk again stored types).StoredAs stored ∧
      List.Forall₂ TypeUse.KeptAs uses types := by
  have kept : KeptMessage addition.tokens stored := (storedAs.renumbered message).kept message
  obtain ⟨reduced, isReduced, isMeasured⟩ := storedAs.reduced
  have sameStored := unspanned_withSpans isMeasured
  have keeps : ∀ token other : Token, other.unspanned = token.unspanned → token.SameShape other :=
    fun _ _ same => Token.sameShape_of_unspanned same
  obtain ⟨storedUses, storedMessage, alike⟩ :=
    (message.reduces isReduced).1.transfer (forall₂_unspanned_iff.mpr sameStored) keeps
  -- the types that it holds
  have usedOnce := message.endsOnce storedAs.held.captureAccepted
  have endsOnce : ∀ use ∈ storedUses, use.EndsOnce := by
    intro use member
    obtain ⟨reducedUse, isReducedUse, same⟩ := exists_of_forall₂ alike member
    obtain ⟨sourceUse, isSource, rfl⟩ := List.mem_map.mp isReducedUse
    exact same.endsOnce keeps (usedOnce sourceUse isSource).reduced
  obtain ⟨types, held, measured⟩ := storedMessage.holdsTypes endsOnce
  have keptAs : List.Forall₂ TypeUse.KeptAs uses types :=
    forall₂_trans (List.forall₂_map_left_iff.mp alike) measured
      fun alike measured => alike.keptAs measured
  -- the checks, and the passes that change nothing
  have constantsGiven := kept.constantGiven (constantGiven_of_checkMessage storedAs.checked)
    (valuesGiven_stored given isReduced sameStored)
  have checked : checkMessage again stored = .ok () := by
    obtain ⟨opening, body, closing, rfl, opens, closes, _⟩ := storedMessage
    rw [checkMessage_enclose opens closes, checkConstants_eq_ok_iff]
    exact constantsGiven
  obtain ⟨measuredStored, measures⟩ := kept.measuresTo
  have remeasures : withSpans stored = .ok stored :=
    withSpans_of_measuresTo (measures.of_withSpans isMeasured).again
  exact ⟨types, ⟨checked, held, stored, reduceConstants_again isReduced sameStored 0, remeasures⟩,
    keptAs⟩

/-- Types that are captured again are compatible if those that the message holds are. -/
theorem Addition.StoredAs.compatible_again (storedAs : addition.StoredAs stored)
    (message : MessageTokens number addition.tokens uses) {types : List (String × List Token)}
    (keptAs : List.Forall₂ TypeUse.KeptAs uses types)
    (compatible : addition.types.Pairwise Compatible) : types.Pairwise Compatible := by
  obtain ⟨_, isReduced, _⟩ := storedAs.reduced
  have sound : ∀ use ∈ uses, use.Formed ∧ use.Resolved := fun use member =>
    ⟨message.formed use member, (message.reduces isReduced).2 use member⟩
  have measured := ((storedAs.renumbered message).types_eq message).1
  have recaptured : List.Forall₂ (Recaptured emptiedConstant) addition.types types :=
    forall₂_trans ((List.forall₂_and_left _ _).mpr ⟨sound, measured⟩).flip keptAs
      fun ⟨⟨formed, resolved⟩, isMeasured⟩ keptAs => keptAs.recaptured isMeasured formed resolved
  exact pairwise_of_forall₂ recaptured compatible
    (Compatible.recaptured keepsLayout_emptiedConstant)

end

/-- Types that were settled where no conflict is allowed do not conflict with each other. -/
theorem compatible_of_settleTypes {registry next : Registry String (List Token)}
    {types : List (String × List Token)}
    (settled : settleTypes .reject registry types = .ok next) : types.Pairwise Compatible := by
  have covers : SchemaDraft.Covers registry.get? [] := fun _ member => nomatch member
  exact (covers.settleTypes settled).2.2

/-- Types keep their names when they are measured. -/
theorem names_of_measured {captured types : List (String × List Token)}
    (measured : List.Forall₂ MeasuredAs captured types) :
    types.map (·.1) = captured.map (·.1) := by
  induction measured with
  | nil => rfl
  | cons first _ ih => rw [List.map_cons, List.map_cons, first.name, ih]

/-- What is stored for a message of a schema, the values of whose enums are given, is accepted under
any number by a draft that starts with nothing.  It is stored there token for token, and the types
that are captured of it have the names that those of the message have, in the same order.

In the messages of a schema (`MessageTokens`) constructs are nested with one name on both ends, the
enum that a constant field wraps holds values only, and no constant field around an enum stands
inside a type. -/
theorem SchemaDraft.addMessage_again {draft extended : SchemaDraft} {messageId number : Int64}
    {tokens : List Token} {uses : List TypeUse}
    (accepted : draft.addMessage messageId tokens = .ok extended)
    (message : MessageTokens number tokens uses)
    (given : ∀ token ∈ tokens, token.signal = .validValue → token.encoding.constValue ≠ none)
    (again : Int64) (identity : SchemaIdentity) (headerTokens : List Token) :
    ∃ stored captured recaptured rebuilt,
      extended.messages.get? messageId = some stored ∧
      typesOf tokens = .ok captured ∧ typesOf stored = .ok recaptured ∧
      recaptured.map (·.1) = captured.map (·.1) ∧
      SchemaDraft.addMessage { options := draft.options, identity, headerTokens } again stored =
        .ok rebuilt ∧
      rebuilt.messages.entries = [(again, stored)] ∧
      rebuilt.types.entries.map (·.1) = (captured.map (·.1)).foldl withName [] := by
  obtain ⟨types, stored, next, storedAs, settled, rfl⟩ := addMessage_settles accepted
  obtain ⟨typesAgain, storedAgain, keptAs⟩ := storedAs.storedAgain message given again
  obtain ⟨captured, isCaptured, measured⟩ := storedAs.held
  obtain ⟨recaptured, isRecaptured, remeasured⟩ := storedAgain.held
  -- both hold types of the names that the message uses
  have usedTypes := ((storedAs.renumbered message).types_eq message).1
  have names : types.map (·.1) = captured.map (·.1) := names_of_measured measured
  have namesAgain : typesAgain.map (·.1) = types.map (·.1) := by
    rw [names_of_forall₂ keptAs fun keptAs => keptAs.name,
      names_of_forall₂ usedTypes fun measured => measured.name]
  -- and a draft without types has no conflict with the stored ones
  have noneKnown : SchemaDraft.Known ({} : Registry String (List Token)).get? [] :=
    fun _ _ isKnown => nomatch isKnown
  have compatible : draft.options.duplicateTypes = .reject → typesAgain.Pairwise Compatible := by
    intro rejects
    rw [rejects] at settled
    exact storedAs.compatible_again message keptAs (compatible_of_settleTypes settled)
  obtain ⟨nextAgain, settledAgain, _⟩ := noneKnown.settleTypes fun rejects =>
    ⟨fun _ member => absurd member List.not_mem_nil, compatible rejects⟩
  have added := storedAgain.addMessage { options := draft.options, identity, headerTokens }
  dsimp only at added
  rw [settledAgain] at added
  refine ⟨stored, captured, recaptured, _, Registry.get?_insert_self _ _ _, isCaptured,
    isRecaptured, ?_, added, rfl, ?_⟩
  · rw [← names_of_measured remeasured, namesAgain, names]
  · rw [← names, ← namesAgain]
    exact keys_settleTypes settledAgain

/-- The side of an order is a type of its price, and the type of a field that is fixed. -/
theorem SchemaDraft.addMessage_again_order :
    ∃ (extended : SchemaDraft) (number : Int64) (uses : List TypeUse),
      (startedDraft .reject).addMessage 1 orderMessage.tokens = .ok extended ∧
      MessageTokens number orderMessage.tokens uses ∧
      (∀ token ∈ orderMessage.tokens, token.signal = .validValue →
        token.encoding.constValue ≠ none) ∧
      ∃ stored captured recaptured rebuilt,
        extended.messages.get? 1 = some stored ∧
        typesOf orderMessage.tokens = .ok captured ∧ typesOf stored = .ok recaptured ∧
        recaptured.map (·.1) = captured.map (·.1) ∧
        SchemaDraft.addMessage
            { options := (startedDraft .reject).options, identity := { packageName := "again" },
              headerTokens := [] } 7 stored = .ok rebuilt ∧
        rebuilt.messages.entries = [(7, stored)] ∧
        rebuilt.types.entries.map (·.1) = (captured.map (·.1)).foldl withName [] := by
  have succeeds : ((startedDraft .reject).addMessage 1 orderMessage.tokens).toOption.isSome =
      true := by decide +kernel
  have given : ∀ token ∈ orderMessage.tokens, token.signal = .validValue →
      token.encoding.constValue ≠ none := by decide +kernel
  obtain ⟨extended, accepted⟩ := exists_ok_of_isSome succeeds
  obtain ⟨uses, message⟩ := orderMessage_named.messageTokens
  exact ⟨extended, _, uses, accepted, message, given,
    addMessage_again accepted message given 7 { packageName := "again" } []⟩

end WireSchema
